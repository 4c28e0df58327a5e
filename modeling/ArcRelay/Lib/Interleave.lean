import Mathlib.Data.List.Basic
import Mathlib.Tactic.Common

/-!
# Interleaved programs over a shared state

A program is a tree of atomic steps.  A step sees the shared state and a value
the environment picks for it (a reply, a failure, a clock reading), updates the
state and continues.  A pool runs several programs over one state: an event of
the schedule is either a step of one of them or a step of the outside world, so
a run is a list of events and "for every interleaving" is "for every list".

The proof rule is rely/guarantee.  `Safe I R G Q p s` says that, from `s`,
every step of `p` keeps the invariant `I` and stays within the guarantee `G`,
and that what `p` returns satisfies `Q`, as long as the others keep `I` and stay
within the rely `R` between two steps of `p`.

## Main definitions

* `Prog σ ε α` — programs, with their monad.
* `Prog.act`, `Prog.get`, `Prog.set`, `Prog.observe`, `Prog.attempt` — one atomic step.
* `Prog.focus` — a program over a part of the state.
* `Prog.watch` — a program whose steps are noted in a history.
* `Prog.alone` — the run of a program that nobody disturbs.
* `Pool`, `Event`, `Pool.exec` — programs in parallel and their runs.
* `Prog.Safe` — the rely/guarantee judgement.
* `Prog.Within` — every step keeps to a relation, from any state; `Prog.Returns` — what may
  be returned; `Prog.Ends` — how a run that nobody disturbs ends; `Prog.Keeps` — what holds all
  along it.

## Main results

* `Prog.safe_bind` — sequential composition.
* `Prog.Within.alone` — a program whose steps keep to a relation keeps to it as a whole.
* `Pool.exec_safe` — **programs that respect each other's relies keep the
  invariant along every run.**
* `Pool.AllSafe.post` — a program that has returned has met its postcondition.
-/

namespace Interleave

/-! ### Programs -/

/-- A program over a shared state `σ`.  The value of `ε` is the environment's
choice for the step. -/
inductive Prog (σ ε α : Type) where
  | ret (a : α) : Prog σ ε α
  /-- One atomic step: the new state, and the rest of the program. -/
  | step (upd : σ → ε → σ) (next : σ → ε → Prog σ ε α) : Prog σ ε α

namespace Prog

variable {σ ε α β δ : Type} {p : Prog σ ε α} {q : Prog σ ε β} {k : β → Prog σ ε α}
  {f : σ → ε → σ × α} {err : ε → Option δ} {a : α}

def bind : Prog σ ε α → (α → Prog σ ε β) → Prog σ ε β
  | ret a, f => f a
  | step upd next, f => step upd fun s e => (next s e).bind f

instance : Monad (Prog σ ε) where
  pure := ret
  bind := bind

def act (f : σ → ε → σ × α) : Prog σ ε α :=
  step (fun s e => (f s e).1) fun s e => ret (f s e).2

def get (f : σ → α) : Prog σ ε α := act fun s _ => (s, f s)

def set (f : σ → σ) : Prog σ ε Unit := act fun s _ => (f s, ())

/-- A step that looks at what it meets outside. -/
def observe (f : ε → α) : Prog σ ε α := act fun s e => (s, f e)

/-- A step that may fail, and then has no effect. -/
def attempt (err : ε → Option δ) (f : σ → ε → σ × α) : Prog σ ε (Except δ α) :=
  act fun s e =>
    match err e with
    | none => ((f s e).1, .ok (f s e).2)
    | some d => (s, .error d)

def result : Prog σ ε α → Option α
  | ret a => some a
  | step _ _ => none

@[simp] theorem result_ret (a : α) : (ret a : Prog σ ε α).result = some a := rfl

@[simp] theorem result_step (upd : σ → ε → σ) (next : σ → ε → Prog σ ε α) :
    (step upd next).result = none := rfl

theorem result_eq_some (h : p.result = some a) : p = ret a := by
  cases p with
  | ret b => simpa using h
  | step upd next => simp at h

@[simp] theorem pure_eq_ret (a : α) : (pure a : Prog σ ε α) = ret a := rfl

@[simp] theorem ret_bind (a : α) (f : α → Prog σ ε β) : (ret a : Prog σ ε α) >>= f = f a := rfl

theorem bind_bind (p : Prog σ ε α) (f : α → Prog σ ε β) (g : β → Prog σ ε δ) :
    p >>= f >>= g = p >>= fun a => f a >>= g := by
  induction p with
  | ret a => rfl
  | step upd next ih => exact congrArg (step upd) (funext fun s => funext fun e => ih s e)

theorem bind_pure (p : Prog σ ε α) : (p >>= fun a => pure a) = p := by
  induction p with
  | ret a => rfl
  | step upd next ih => exact congrArg (step upd) (funext fun s => funext fun e => ih s e)

/-! ### Parts of the state, and runs alone -/

section

variable {τ ε' : Type} {get : τ → σ} {put : τ → σ → τ} {env : ε' → ε}

/-- A program over a part of the state and of what it meets outside. -/
def focus (get : τ → σ) (put : τ → σ → τ) (env : ε' → ε) : Prog σ ε α → Prog τ ε' α
  | ret a => ret a
  | step upd next =>
    step (fun t e => put t (upd (get t) (env e))) fun t e =>
      (next (get t) (env e)).focus get put env

/-- A program whose steps are noted in a history, the last one in front.  What is noted of a
step depends on the states before and after it and on what it meets. -/
def watch {η : Type} (note : σ → ε' → σ → List η) (env : ε' → ε) :
    Prog σ ε α → Prog (σ × List η) ε' α
  | ret a => ret a
  | step upd next =>
    step (fun w e => (upd w.1 (env e), note w.1 e (upd w.1 (env e)) ++ w.2)) fun w e =>
      (next w.1 (env e)).watch note env

theorem watch_act {η : Type} (note : σ → ε' → σ → List η) (env : ε' → ε) (f : σ → ε → σ × α) :
    (act f).watch note env = act fun w e =>
      (((f w.1 (env e)).1, note w.1 e (f w.1 (env e)).1 ++ w.2), (f w.1 (env e)).2) := rfl

/-- The run of a program that nobody disturbs: the state it ends in, and what it returns. -/
def alone : Prog σ ε α → (ℕ → ε) → σ → σ × α
  | ret a, _, s => (s, a)
  | step upd next, env, s => (next s (env 0)).alone (fun n => env (n + 1)) (upd s (env 0))

@[simp] theorem alone_ret (a : α) (env : ℕ → ε) (s : σ) : (ret a).alone env s = (s, a) := rfl

@[simp] theorem alone_act_bind (f : σ → ε → σ × β) (k : β → Prog σ ε α) (env : ℕ → ε) (s : σ) :
    (act f >>= k).alone env s =
      (k (f s (env 0)).2).alone (fun n => env (n + 1)) (f s (env 0)).1 := rfl

theorem alone_act (f : σ → ε → σ × α) (env : ℕ → ε) (s : σ) :
    (act f).alone env s = f s (env 0) := rfl

theorem alone_bind (e : ε) (p : Prog σ ε β) (f : β → Prog σ ε α) (s : σ) :
    (p >>= f).alone (fun _ => e) s =
      (f (p.alone (fun _ => e) s).2).alone (fun _ => e) (p.alone (fun _ => e) s).1 := by
  induction p generalizing s with
  | ret b => rfl
  | step upd next ih => exact ih s e (upd s e)

theorem alone_focus (hget : ∀ t s, get (put t s) = s) (hput : ∀ t s s', put (put t s) s' = put t s')
    (hself : ∀ t, put t (get t) = t) (e : ε') (p : Prog σ ε α) (t : τ) :
    (p.focus get put env).alone (fun _ => e) t =
      (put t (p.alone (fun _ => env e) (get t)).1, (p.alone (fun _ => env e) (get t)).2) := by
  induction p generalizing t with
  | ret a => rw [focus, alone_ret, alone_ret, hself]
  | step upd next ih =>
    rw [focus, alone, ih, hget, hput]
    rfl

/-- Each step of the program, from any state, keeps to a relation. -/
def Within (G : σ → σ → Prop) : Prog σ ε α → Prop
  | ret _ => True
  | step upd next => ∀ s e, G s (upd s e) ∧ (next s e).Within G

variable {G : σ → σ → Prop}

theorem within_pure (a : α) : (pure a : Prog σ ε α).Within G := trivial

theorem within_act : (act f).Within G ↔ ∀ s e, G s (f s e).1 := by
  simp [act, Within]

theorem within_true (p : Prog σ ε α) : p.Within fun _ _ => True := by
  induction p with
  | ret a => trivial
  | step upd next ih => exact fun s e => ⟨trivial, ih s e⟩

theorem within_attempt (hrefl : ∀ s, G s s)
    (h : ∀ s e, G s (f s e).1) : (attempt err f).Within G := by
  refine within_act.mpr fun s e => ?_
  cases err e with
  | none => exact h s e
  | some d => exact hrefl s

theorem Within.bind (hp : q.Within G) (hf : ∀ b, (k b).Within G) : (q >>= k).Within G := by
  induction q with
  | ret b => exact hf b
  | step upd next ih => ?_
  intro s e
  obtain ⟨hG, hnext⟩ := hp s e
  exact ⟨hG, ih s e hnext⟩

theorem Within.bindOk {p : Prog σ ε (Except δ β)} {f : Except δ β → Prog σ ε α}
    (hp : p.Within G) (herr : ∀ d, (f (.error d)).Within G) (hok : ∀ b, (f (.ok b)).Within G) :
    (p >>= f).Within G := by
  refine hp.bind fun r => ?_
  cases r with
  | error d => exact herr d
  | ok b => exact hok b

/-- Whatever the program returns satisfies a predicate. -/
def Returns (Q : α → Prop) : Prog σ ε α → Prop
  | ret a => Q a
  | step _ next => ∀ s e, (next s e).Returns Q

variable {Q : α → Prop}

theorem returns_pure (h : Q a) : (pure a : Prog σ ε α).Returns Q := h

theorem returns_act : (act f).Returns Q ↔ ∀ s e, Q (f s e).2 := by
  simp [act, Returns]

theorem Returns.bind (q : Prog σ ε β) (hf : ∀ b, (k b).Returns Q) : (q >>= k).Returns Q := by
  induction q with
  | ret b => exact hf b
  | step upd next ih => exact fun s e => ih s e

theorem Returns.bind_returns {P : β → Prop}
    (hp : q.Returns P) (hf : ∀ b, P b → (k b).Returns Q) : (q >>= k).Returns Q := by
  induction q with
  | ret b => exact hf b hp
  | step upd next ih => exact fun s e => ih s e (hp s e)

theorem Returns.mono {P : α → Prop} (hp : p.Returns P) (h : ∀ a, P a → Q a) : p.Returns Q := by
  induction p with
  | ret a => exact h a hp
  | step upd next ih => exact fun s e => ih s e (hp s e)

theorem Returns.alone (hp : p.Returns Q) (env : ℕ → ε) (s : σ) : Q (p.alone env s).2 := by
  induction p generalizing env s with
  | ret a => exact hp
  | step upd next ih => exact ih s (env 0) (hp s (env 0)) (fun n => env (n + 1)) (upd s (env 0))

theorem Returns.focus (hp : p.Returns Q) : (p.focus get put env).Returns Q := by
  induction p with
  | ret a => exact hp
  | step upd next ih => exact fun t e => ih (get t) (env e) (hp (get t) (env e))

theorem Within.bind_returns {P : β → Prop}
    (hp : q.Within G) (hr : q.Returns P) (hf : ∀ b, P b → (k b).Within G) :
    (q >>= k).Within G := by
  induction q with
  | ret b => exact hf b hr
  | step upd next ih => ?_
  intro s e
  obtain ⟨hG, hnext⟩ := hp s e
  exact ⟨hG, ih s e hnext (hr s e)⟩

theorem Within.focus {H : τ → τ → Prop} (hp : p.Within G)
    (hGH : ∀ t s, G (get t) s → H t (put t s)) : (p.focus get put env).Within H := by
  induction p with
  | ret a => trivial
  | step upd next ih => ?_
  intro t e
  obtain ⟨hG, hnext⟩ := hp (get t) (env e)
  exact ⟨hGH t _ hG, ih (get t) (env e) hnext⟩

theorem Within.watch {η : Type} {H : σ × List η → σ × List η → Prop} {note : σ → ε' → σ → List η}
    (hp : p.Within G) (hGH : ∀ s s' e log, G s s' → H (s, log) (s', note s e s' ++ log)) :
    (p.watch note env).Within H := by
  induction p with
  | ret a => trivial
  | step upd next ih => ?_
  intro w e
  obtain ⟨hG, hnext⟩ := hp w.1 (env e)
  exact ⟨hGH w.1 _ e w.2 hG, ih w.1 (env e) hnext⟩

theorem Within.alone (hp : p.Within G) (hrefl : ∀ s, G s s)
    (htrans : ∀ a b c, G a b → G b c → G a c) (env : ℕ → ε) (s : σ) : G s (p.alone env s).1 := by
  induction p generalizing env s with
  | ret a => exact hrefl s
  | step upd next ih =>
    obtain ⟨hG, hnext⟩ := hp s (env 0)
    exact htrans _ _ _ hG (ih s (env 0) hnext (fun n => env (n + 1)) (upd s (env 0)))

/-- From `s`, a run that nobody disturbs ends with `Q`, whatever the environment picks as long
as it keeps to `E`. -/
def Ends (E : ε → Prop) (Q : α → σ → Prop) : Prog σ ε α → σ → Prop
  | ret a, s => Q a s
  | step upd next, s => ∀ e, E e → (next s e).Ends E Q (upd s e)

section

variable {E : ε → Prop} {Q : α → σ → Prop} {s : σ}

theorem ends_pure (h : Q a s) : (pure a : Prog σ ε α).Ends E Q s := h

theorem ends_act : (act f).Ends E Q s ↔ ∀ e, E e → Q (f s e).2 (f s e).1 := Iff.rfl

theorem Ends.bind {P : β → σ → Prop}
    (hp : q.Ends E P s) (hf : ∀ b s', P b s' → (k b).Ends E Q s') : (q >>= k).Ends E Q s := by
  induction q generalizing s with
  | ret b => exact hf b s hp
  | step upd next ih => exact fun e he => ih s e (hp e he)

theorem Ends.alone (hp : p.Ends E Q s) {env : ℕ → ε} (henv : ∀ n, E (env n)) :
    Q (p.alone env s).2 (p.alone env s).1 := by
  induction p generalizing env s with
  | ret a => exact hp
  | step upd next ih => exact ih s (env 0) (hp (env 0) (henv 0)) fun n => henv (n + 1)

end

/-- Each step of a run that nobody disturbs leads to a state in `I`, and the run ends as `Q`
says. -/
def Keeps (I : σ → Prop) (Q : α → σ → Prop) : Prog σ ε α → σ → Prop
  | ret a, s => Q a s
  | step upd next, s => ∀ e, I (upd s e) ∧ (next s e).Keeps I Q (upd s e)

section

variable {I : σ → Prop} {Q : α → σ → Prop} {s : σ}

theorem keeps_pure (h : Q a s) : (pure a : Prog σ ε α).Keeps I Q s := h

theorem keeps_act : (act f).Keeps I Q s ↔ ∀ e, I (f s e).1 ∧ Q (f s e).2 (f s e).1 := Iff.rfl

theorem Keeps.bind {P : β → σ → Prop} (hs : I s)
    (hp : q.Keeps I P s) (hf : ∀ b s', I s' → P b s' → (k b).Keeps I Q s') :
    (q >>= k).Keeps I Q s := by
  induction q generalizing s with
  | ret b => exact hf b s hs hp
  | step upd next ih => exact fun e => ⟨(hp e).1, ih s e (hp e).1 (hp e).2⟩

/-- A run from any state in `I` keeps `I`, and returns what satisfies a predicate. -/
def Holds (I : σ → Prop) (Q : α → Prop) (p : Prog σ ε α) : Prop :=
  ∀ s, I s → p.Keeps I (fun a _ => Q a) s

/-- A run from any state in `I` keeps `I`. -/
abbrev Preserves (I : σ → Prop) (p : Prog σ ε α) : Prop := p.Holds I fun _ => True

section

variable {P : β → Prop} {Q : α → Prop}

theorem holds_pure (h : Q a) : (pure a : Prog σ ε α).Holds I Q :=
  fun _ _ => keeps_pure h

theorem holds_any (a : α) : (pure a : Prog σ ε α).Preserves I := holds_pure trivial

theorem Holds.bind (hp : q.Holds I P) (hf : ∀ b, P b → (k b).Holds I Q) : (q >>= k).Holds I Q :=
  fun s hs => (hp s hs).bind hs fun b s' hs' hb => hf b hb s' hs'

theorem Holds.bindOk {P : Except δ β → Prop} {p : Prog σ ε (Except δ β)}
    {f : Except δ β → Prog σ ε α} (hp : p.Holds I P) (herr : ∀ d, (f (.error d)).Holds I Q)
    (hok : ∀ b, P (.ok b) → (f (.ok b)).Holds I Q) : (p >>= f).Holds I Q := by
  refine hp.bind fun r hr => ?_
  cases r with
  | error d => exact herr d
  | ok b => exact hok b hr

end

end

end

-- the rules above are all that is needed, and unfolding would run the programs
attribute [irreducible] Within Returns Ends Keeps

/-! ### The rely/guarantee judgement -/

section

variable (I : σ → Prop) (R G : σ → σ → Prop)

/-- `Safe I R G Q p s`: started in `s` among programs that keep `I` and stay
within `R`, each step of `p` keeps `I` and stays within `G`, and the value
returned satisfies `Q`. -/
def Safe (Q : α → σ → Prop) : Prog σ ε α → σ → Prop
  | ret a, s => ∀ s', R s s' → I s' → Q a s'
  | step upd next, s => ∀ s', R s s' → I s' → ∀ e,
      I (upd s' e) ∧ G s' (upd s' e) ∧ Safe Q (next s' e) (upd s' e)

variable {I R G} {Q : α → σ → Prop} {s : σ}

theorem safe_pure (h : ∀ t, R s t → Q a t) : Safe I R G Q (pure a : Prog σ ε α) s :=
  fun t hR _ => h t hR

theorem safe_true : Safe I R G (fun _ _ => True) (pure a : Prog σ ε α) s :=
  safe_pure fun _ _ => trivial

theorem safe_act :
    Safe I R G Q (act f) s ↔ ∀ s', R s s' → I s' → ∀ e,
      I (f s' e).1 ∧ G s' (f s' e).1 ∧ ∀ t, R (f s' e).1 t → I t → Q (f s' e).2 t := Iff.rfl

theorem safe_act_bind {f : σ → ε → σ × β} :
    Safe I R G Q (act f >>= k) s ↔ ∀ s', R s s' → I s' → ∀ e,
      I (f s' e).1 ∧ G s' (f s' e).1 ∧ Safe I R G Q (k (f s' e).2) (f s' e).1 := Iff.rfl

theorem safe_observe_bind (hG : ∀ a, G a a) {f : ε → β}
    (h : ∀ s', R s s' → I s' → ∀ e, Safe I R G Q (k (f e)) s') : Safe I R G Q (observe f >>= k) s :=
  safe_act_bind.mpr fun s' hR hI e => ⟨hI, hG s', h s' hR hI e⟩

/-- The rule for a step that may fail: only its success has to keep the invariant. -/
theorem safe_attempt_bind (hG : ∀ a, G a a) {f : σ → ε → σ × β}
    {k : Except δ β → Prog σ ε α}
    (h : ∀ s', R s s' → I s' → (∀ d, Safe I R G Q (k (.error d)) s') ∧
      ∀ e, I (f s' e).1 ∧ G s' (f s' e).1 ∧ Safe I R G Q (k (.ok (f s' e).2)) (f s' e).1) :
    Safe I R G Q (attempt err f >>= k) s := by
  refine safe_act_bind.mpr fun s' hR hI e => ?_
  obtain ⟨herr, hok⟩ := h s' hR hI
  cases err e with
  | none => exact hok e
  | some d => exact ⟨hI, hG s', herr d⟩

theorem Safe.rely (htrans : ∀ a b c, R a b → R b c → R a c) {s' : σ} (h : Safe I R G Q p s)
    (hR : R s s') : Safe I R G Q p s' := by
  cases p with
  | ret _ | step _ _ => exact fun t ht hI => h t (htrans _ _ _ hR ht) hI

theorem safe_of_rely (hrefl : ∀ a, R a a) (h : ∀ s', R s s' → I s' → Safe I R G Q p s') :
    Safe I R G Q p s := by
  cases p with
  | ret _ | step _ _ => exact fun t ht hI => h t ht hI t (hrefl t) hI

/-- **Sequential composition**: the second program is judged in every state the
first may return in. -/
theorem safe_bind (hrefl : ∀ a, R a a) {P : β → σ → Prop}
    (hp : Safe I R G P q s) (hf : ∀ b s', I s' → P b s' → Safe I R G Q (k b) s') :
    Safe I R G Q (q >>= k) s := by
  induction q generalizing s with
  | ret b => exact safe_of_rely hrefl fun s' hR hI => hf b s' hI (hp s' hR hI)
  | step upd next ih => ?_
  intro s' hR hI e
  obtain ⟨hI', hG, hnext⟩ := hp s' hR hI e
  exact ⟨hI', hG, ih s' e hnext⟩

theorem Safe.bind [Std.Refl R] {P : β → σ → Prop} (hp : Safe I R G P q s)
    (hf : ∀ b s', P b s' → Safe I R G Q (k b) s') : Safe I R G Q (q >>= k) s :=
  safe_bind Std.Refl.refl hp fun b s' _ => hf b s'

theorem Safe.weaken {P : α → σ → Prop} (h : Safe I R G P p s)
    (hPQ : ∀ a s', I s' → P a s' → Q a s') : Safe I R G Q p s := by
  induction p generalizing s with
  | ret a => exact fun s' hR hI => hPQ a s' hI (h s' hR hI)
  | step upd next ih => ?_
  intro s' hR hI e
  obtain ⟨hI', hG, hnext⟩ := h s' hR hI e
  exact ⟨hI', hG, ih s' e hnext⟩

/-- What every step of the others and every step of the program stay within, a
whole execution of the program stays within. -/
theorem Safe.within {T : σ → σ → Prop} (htrans : ∀ a b c, T a b → T b c → T a c)
    (hR : ∀ a b, R a b → T a b) (hG : ∀ a b, G a b → T a b) {s0 : σ} (h : Safe I R G Q p s)
    (h0 : T s0 s) : Safe I R G (fun a s' => T s0 s' ∧ Q a s') p s := by
  induction p generalizing s with
  | ret a => exact fun s' hs hI => ⟨htrans _ _ _ h0 (hR _ _ hs), h s' hs hI⟩
  | step upd next ih => ?_
  intro s' hs hI e
  obtain ⟨hI', hG', hnext⟩ := h s' hs hI e
  exact ⟨hI', hG', ih s' e hnext (htrans _ _ _ (htrans _ _ _ h0 (hR _ _ hs)) (hG _ _ hG'))⟩

theorem Within.safe {T : σ → σ → Prop} (hp : p.Within T)
    (hT : ∀ s s', I s → T s s' → I s' ∧ G s s') (s : σ) : Safe I R G (fun _ _ => True) p s := by
  induction p generalizing s with
  | ret a => exact fun _ _ _ => trivial
  | step upd next ih => ?_
  rw [Within] at hp
  intro s' _ hI e
  obtain ⟨hstep, hnext⟩ := hp s' e
  obtain ⟨hI', hG⟩ := hT s' (upd s' e) hI hstep
  exact ⟨hI', hG, ih s' e hnext (upd s' e)⟩

theorem Safe.returns {P : α → Prop} (h : Safe I R G Q p s) (hp : p.Returns P) :
    Safe I R G (fun a s' => P a ∧ Q a s') p s := by
  induction p generalizing s with
  | ret a =>
    rw [Returns] at hp
    exact fun s' hR hI => ⟨hp, h s' hR hI⟩
  | step upd next ih =>
    rw [Returns] at hp
    intro s' hR hI e
    obtain ⟨hI', hG, hnext⟩ := h s' hR hI e
    exact ⟨hI', hG, ih s' e hnext (hp s' e)⟩

theorem Safe.alone (hrefl : ∀ a, R a a) (h : Safe I R G Q p s) (hI : I s) (env : ℕ → ε) :
    I (p.alone env s).1 ∧ Q (p.alone env s).2 (p.alone env s).1 := by
  induction p generalizing env s with
  | ret a => exact ⟨hI, h s (hrefl s) hI⟩
  | step upd next ih =>
    obtain ⟨hI', -, hnext⟩ := h s (hrefl s) hI (env 0)
    exact ih s (env 0) hnext hI' fun n => env (n + 1)


theorem Safe.focus {τ ε' : Type} {get : τ → σ} {put : τ → σ → τ} {env : ε' → ε}
    (hget : ∀ t s, get (put t s) = s) {t : τ} (h : Safe I R G Q p (get t)) :
    Safe (fun t => I (get t)) (fun t t' => R (get t) (get t')) (fun t t' => G (get t) (get t'))
      (fun a t => Q a (get t)) (p.focus get put env) t := by
  induction p generalizing t with
  | ret a => exact fun t' hR hI => h (get t') hR hI
  | step upd next ih => ?_
  intro t' hR hI e
  obtain ⟨hI', hG, hnext⟩ := h (get t') hR hI (env e)
  rw [← hget t' (upd (get t') (env e))] at hI' hG hnext
  exact ⟨hI', hG, ih (get t') (env e) hnext⟩

end

end Prog

/-! ### Programs in parallel -/

/-- Programs running over one shared state. -/
structure Pool (σ ε α : Type) where
  state : σ
  threads : List (Prog σ ε α)

inductive Event (η ε : Type) where
  | env (h : η)
  /-- Program `i` takes its next step, with the environment's choice `e`. -/
  | run (i : ℕ) (e : ε)

namespace Pool

variable {σ η ε α : Type}

/-- One event.  Scheduling a program that has returned, or that is not there,
changes nothing. -/
def apply (world : η → σ → σ) (P : Pool σ ε α) : Event η ε → Pool σ ε α
  | .env h => { P with state := world h P.state }
  | .run i e =>
    match P.threads[i]? with
    | some (.step upd next) =>
      { state := upd P.state e, threads := P.threads.set i (next P.state e) }
    | _ => P

def exec (world : η → σ → σ) (P : Pool σ ε α) (sched : List (Event η ε)) : Pool σ ε α :=
  sched.foldl (apply world) P

def result (P : Pool σ ε α) (i : ℕ) : Option α := P.threads[i]? >>= Prog.result

@[simp] theorem exec_nil (world : η → σ → σ) (P : Pool σ ε α) : P.exec world [] = P := rfl

@[simp] theorem exec_cons (world : η → σ → σ) (P : Pool σ ε α) (ev : Event η ε)
    (sched : List (Event η ε)) :
    P.exec world (ev :: sched) = (P.apply world ev).exec world sched := rfl

theorem exec_append (world : η → σ → σ) (P : Pool σ ε α) (s1 s2 : List (Event η ε)) :
    P.exec world (s1 ++ s2) = (P.exec world s1).exec world s2 := List.foldl_append

theorem exec_induction {world : η → σ → σ} {M : Pool σ ε α → Prop} {P : Pool σ ε α}
    (hinit : M P) (hstep : ∀ P ev, M P → M (P.apply world ev)) (sched : List (Event η ε)) :
    M (P.exec world sched) := by
  induction sched generalizing P with
  | nil => exact hinit
  | cons ev sched ih => exact ih (hstep P ev hinit)

/-- A program that is scheduled again and again returns. -/
theorem exec_returns {world : η → σ → σ} {sched : ℕ → Event η ε} {i : ℕ} {P : Pool σ ε α}
    (hfair : ∀ n, ∃ k ≥ n, ∃ e, sched k = .run i e) (hi : i < P.threads.length) :
    ∃ n r, (P.exec world ((List.range n).map sched)).result i = some r := by
  let after (n : ℕ) := P.exec world ((List.range n).map sched)
  have hsucc : ∀ n, after (n + 1) = (after n).apply world (sched n) := by
    intro n
    simp only [after, List.range_succ, List.map_append, exec_append]
    rfl
  have hreturn : ∀ p n, (after n).threads[i]? = some p → ∃ n r, (after n).result i = some r := by
    intro p
    induction p with
    | ret a => exact fun n hp => ⟨n, a, by simp [result, hp]⟩
    | step upd next ih => ?_
    intro n hp
    by_contra hnever
    -- it would take no step, and so stand where it stands
    have hidle : ∀ k e, (after k).threads[i]? = some (.step upd next) → sched k ≠ .run i e := by
      intro k e hk hev
      have hlt : i < (after k).threads.length := (List.getElem?_eq_some_iff.mp hk).1
      refine hnever (ih (after k).state e (k + 1) ?_)
      rw [hsucc, hev, apply, hk]
      exact List.getElem?_set_self hlt
    have hstays : ∀ k ≥ n, (after k).threads[i]? = some (.step upd next) := by
      intro k hle
      induction hle with
      | refl => exact hp
      | @step k _ hk => ?_
      rw [hsucc]
      cases hev : sched k with
      | env h => exact hk
      | run j e => ?_
      have hne : j ≠ i := fun hj => hidle k e hk (hj ▸ hev)
      rw [apply]
      split
      · exact (List.getElem?_set_ne hne).trans hk
      · exact hk
    obtain ⟨k, hk, e, hev⟩ := hfair n
    exact hidle k e (hstays k hk) hev
  exact hreturn _ 0 (List.getElem?_eq_getElem hi)

section

variable {I : σ → Prop} {R G : ℕ → σ → σ → Prop} {Q : ℕ → α → σ → Prop}

structure AllSafe (I : σ → Prop) (R G : ℕ → σ → σ → Prop) (Q : ℕ → α → σ → Prop)
    (P : Pool σ ε α) : Prop where
  inv : I P.state
  safe : ∀ (i : ℕ) (p : Prog σ ε α), P.threads[i]? = some p → p.Safe I (R i) (G i) (Q i) P.state

theorem allSafe_mapIdx {run : ℕ → β → Prog σ ε α} {s : σ} {bs : List β} (hI : I s)
    (h : ∀ i b, bs[i]? = some b → (run i b).Safe I (R i) (G i) (Q i) s) :
    AllSafe I R G Q ⟨s, bs.mapIdx run⟩ := by
  refine ⟨hI, fun i p hp => ?_⟩
  rw [List.getElem?_mapIdx] at hp
  obtain ⟨b, hb, rfl⟩ := Option.map_eq_some_iff.mp hp
  exact h i b hb

section

variable {world : η → σ → σ} {P : Pool σ ε α} (hrefl : ∀ i a, R i a a)
  (htrans : ∀ i a b c, R i a b → R i b c → R i a c)
  (hGR : ∀ i j, i ≠ j → ∀ s s', I s → G i s s' → R j s s')
  (henv : ∀ h s, I s → I (world h s) ∧ ∀ j, R j s (world h s))

include hrefl htrans hGR henv

/-- One event keeps every program safe: the program that moves by its own
judgement, the others because its guarantee is within their relies. -/
theorem AllSafe.apply (hP : AllSafe I R G Q P) (ev : Event η ε) :
    AllSafe I R G Q (P.apply world ev) := by
  cases ev with
  | env h =>
    obtain ⟨hI, hR⟩ := henv h P.state hP.inv
    exact ⟨hI, fun i p hp => (hP.safe i p hp).rely (htrans i) (hR i)⟩
  | run i e => ?_
  simp only [Pool.apply]
  split
  · next upd next hi =>
    obtain ⟨hI, hG, hnext⟩ := hP.safe i _ hi P.state (hrefl i _) hP.inv e
    refine ⟨hI, fun j p hp => ?_⟩
    rw [List.getElem?_set] at hp
    by_cases hij : i = j
    · -- the program that moved is what is left of it
      subst hij
      have hlt : i < P.threads.length := (List.getElem?_eq_some_iff.mp hi).1
      simp only [if_true, hlt] at hp
      cases hp
      exact hnext
    · rw [if_neg hij] at hp
      exact (hP.safe j p hp).rely (htrans j) (hGR i j hij _ _ hP.inv hG)
  · exact hP

/-- **Programs that respect each other's relies keep the invariant along every
run**, and stay safe. -/
theorem exec_safe (hP : AllSafe I R G Q P) (sched : List (Event η ε)) :
    AllSafe I R G Q (P.exec world sched) :=
  exec_induction hP (fun _ ev h => h.apply hrefl htrans hGR henv ev) sched

theorem exec_within {T : σ → σ → Prop} (hT : ∀ a, T a a) (hTtrans : ∀ a b c, T a b → T b c → T a c)
    (hGT : ∀ i s s', I s → G i s s' → T s s') (hwT : ∀ h s, I s → T s (world h s))
    (hP : AllSafe I R G Q P) (sched : List (Event η ε)) :
    T P.state (P.exec world sched).state := by
  induction sched generalizing P with
  | nil => exact hT _
  | cons ev sched ih => ?_
  have hstep : T P.state (P.apply world ev).state := by
    cases ev with
    | env h => exact hwT h P.state hP.inv
    | run i e => ?_
    simp only [Pool.apply]
    split
    · next upd next hi => exact hGT i _ _ hP.inv (hP.safe i _ hi P.state (hrefl i _) hP.inv e).2.1
    · exact hT _
  exact hTtrans _ _ _ hstep (ih (hP.apply hrefl htrans hGR henv ev))

end

theorem AllSafe.guarantee (world : η → σ → σ) (hrefl : ∀ i a, R i a a) (hG : ∀ i a, G i a a)
    {P : Pool σ ε α} (hP : AllSafe I R G Q P) (i : ℕ) (e : ε) :
    G i P.state (P.apply world (.run i e)).state := by
  simp only [Pool.apply]
  split
  · next upd next hi => exact (hP.safe i _ hi P.state (hrefl i _) hP.inv e).2.1
  · exact hG i _

theorem AllSafe.post (hrefl : ∀ i a, R i a a) {P : Pool σ ε α} (hP : AllSafe I R G Q P)
    {i : ℕ} {a : α} (h : P.result i = some a) : Q i a P.state := by
  obtain ⟨p, hp, hres⟩ := Option.bind_eq_some_iff.mp h
  obtain rfl := Prog.result_eq_some hres
  exact hP.safe i _ hp P.state (hrefl i _) hP.inv

end

/-- **A single program in its environment**: the invariant holds along every run, the
program stays safe, and the run stays within what every step stays within. -/
theorem exec_single {world : η → σ → σ} {I : σ → Prop} {R G T : σ → σ → Prop}
    {Q : α → σ → Prop} (hrefl : ∀ a, R a a) (htrans : ∀ a b c, R a b → R b c → R a c)
    (henv : ∀ h s, I s → I (world h s) ∧ R s (world h s))
    (hT : ∀ a, T a a) (hTtrans : ∀ a b c, T a b → T b c → T a c)
    (hGT : ∀ a b, G a b → T a b) (hRT : ∀ a b, R a b → T a b)
    {p : Prog σ ε α} {s : σ} (hI : I s) (hp : p.Safe I R G Q s) (sched : List (Event η ε)) :
    ∃ p', ((Pool.mk s [p]).exec world sched).threads = [p'] ∧
      I ((Pool.mk s [p]).exec world sched).state ∧
      p'.Safe I R G Q ((Pool.mk s [p]).exec world sched).state ∧
      T s ((Pool.mk s [p]).exec world sched).state := by
  induction sched generalizing s p with
  | nil => exact ⟨p, rfl, hI, hp, hT s⟩
  | cons ev sched ih => ?_
  cases ev with
  | env h =>
    obtain ⟨hI', hR⟩ := henv h s hI
    obtain ⟨p', hthreads, hinv, hsafe, hTs⟩ := ih hI' (hp.rely htrans hR)
    exact ⟨p', hthreads, hinv, hsafe, hTtrans _ _ _ (hRT _ _ hR) hTs⟩
  | run i e => ?_
  cases i with
  -- there is no other program to run
  | succ i => exact ih hI hp
  | zero =>
    cases p with
    | ret a => exact ih hI hp
    | step upd next => ?_
    obtain ⟨hI', hG, hnext⟩ := hp s (hrefl s) hI e
    obtain ⟨p', hthreads, hinv, hsafe, hTs⟩ := ih hI' hnext
    exact ⟨p', hthreads, hinv, hsafe, hTtrans _ _ _ (hGT _ _ hG) hTs⟩

end Pool

end Interleave
