import Mathlib.Data.List.Basic
import Mathlib.Tactic.Common

/-!
# Programs that share a mutex

Several programs run over one state and share one mutex.  Only a part of what they do is done
under the mutex, so holding it means less than being alone: what the mutex protects stays as
it is, and the rest may change between any two steps.

Such programs often keep two things in line, one under the mutex and one beside it, and each
of them may have to put them out of line for a while.  `Settles` is the rule for that.  A
program may leave a good state at any step, and is then *owing*; it has paid when a step of its
own ends in a good state; it may not return while it is owing.  A program that is not owing
keeps good states good.  Then a state in which nobody is at work is good, whatever was
interleaved.

## Main definitions

* `Code σ ε α` — programs with `lock` and `unlock`, with their monad; `locked` — a critical
  section.
* `System`, `Event`, `System.exec` — programs at work, and their runs; calls come at any time.
* `Settles` — the judgement.

## Main results

* `Code.settles_bind`, `Code.settles_locked` — sequential composition, and critical sections.
* `Code.settles_keep`, `Code.settles_pay`, `Code.settles_borrow` — what a step may do.
* `System.settled_exec` — **programs that settle what they owe do so along every run.**
* `System.good_of_idle` — when nobody is at work, the state is good.
-/

namespace Locked

open Option Bool Function

/-! ### Programs -/

/-- A program over a shared state `σ` and a mutex.  The value of `ε` is the environment's
choice for the step. -/
inductive Code (σ ε α : Type) where
  | ret (a : α) : Code σ ε α
  | step (upd : σ → ε → σ) (next : σ → ε → Code σ ε α) : Code σ ε α
  /-- Waits until the mutex is free, and takes it. -/
  | lock (next : Code σ ε α) : Code σ ε α
  | unlock (next : Code σ ε α) : Code σ ε α

namespace Code

variable {σ ε α β : Type}

def bind : Code σ ε α → (α → Code σ ε β) → Code σ ε β
  | ret a, f => f a
  | step upd next, f => step upd fun s e => (next s e).bind f
  | lock next, f => lock (next.bind f)
  | unlock next, f => unlock (next.bind f)

instance : Monad (Code σ ε) where
  pure := ret
  bind := bind

def act (f : σ → ε → σ × α) : Code σ ε α :=
  step (fun s e => (f s e).1) fun s e => ret (f s e).2

def set (f : σ → σ) : Code σ ε Unit := act fun s _ => (f s, ())

def observe (f : ε → α) : Code σ ε α := act fun s e => (s, f e)

def locked (p : Code σ ε α) : Code σ ε α := lock (p.bind fun a => unlock (ret a))

def returned : Code σ ε α → Bool
  | ret _ => true
  | _ => false

end Code

/-! ### Programs at work -/

/-- Programs at work over one state; `holder` is the one that has the mutex. -/
structure System (σ ε α : Type) where
  state : σ
  holder : Option ℕ := none
  threads : List (Code σ ε α) := []

inductive Event (κ ε : Type) where
  | call (k : κ)
  /-- Program `i` takes its next step, with the environment's choice `e`. -/
  | run (i : ℕ) (e : ε)

namespace System

variable {σ ε α κ : Type}

/-- One event.  A program that waits for the mutex, or has returned, does not move. -/
def apply (code : κ → Code σ ε α) (S : System σ ε α) : Event κ ε → System σ ε α
  | .call k => { S with threads := S.threads ++ [code k] }
  | .run i e =>
    match S.threads[i]? with
    | some (.step upd next) =>
      { S with state := upd S.state e, threads := S.threads.set i (next S.state e) }
    | some (.lock next) =>
      if S.holder = none then { S with holder := some i, threads := S.threads.set i next } else S
    | some (.unlock next) => { S with holder := none, threads := S.threads.set i next }
    | some (.ret _) | none => S

def exec (code : κ → Code σ ε α) (S : System σ ε α) (events : List (Event κ ε)) :
    System σ ε α :=
  events.foldl (apply code) S

def idle (S : System σ ε α) : Bool := S.threads.all (·.returned)

end System

/-! ### The judgement -/

structure Standing where
  held : Bool := false
  owing : Bool := false

namespace Code

variable {σ ε α β : Type}

section

variable (Good : σ → Prop) (K : σ → σ → Prop)

/-- A program that stops owing, or was not owing in a good state, ends in a good state unless
it is owing then. -/
def Pays (owing owing' : Bool) (s s' : σ) : Prop :=
  owing' = false → owing = true ∨ Good s → Good s'

/-- `Settles Good K Q p m s`: with the standing `m`, and having seen `s`, the program `p` leaves
good states only as long as it is owing, keeps to `K` where it does not have the mutex, and
returns with a standing and a value that satisfy `Q`.  What the others do keeps to `K` while it
has the mutex. -/
def Settles (Q : Standing → α → σ → Prop) : Code σ ε α → Standing → σ → Prop
  | ret a, m, s => ∀ s', (m.held = true → K s s') → Q m a s'
  | step upd next, m, s => ∀ s', (m.held = true → K s s') → ∀ e,
      (m.held = false → K s' (upd s' e)) ∧
        ∃ owing', Pays Good m.owing owing' s' (upd s' e) ∧
          Settles Q (next s' e) { m with owing := owing' } (upd s' e)
  | lock next, m, _ => m.held = false ∧ ∀ s', Settles Q next { m with held := true } s'
  | unlock next, m, s => m.held = true ∧ ∀ s', K s s' → Settles Q next { m with held := false } s'

end

variable {Good : σ → Prop} {K : σ → σ → Prop} {Q : Standing → α → σ → Prop} {m : Standing} {s : σ}
  {p : Code σ ε α}

theorem settles_act_bind {f : σ → ε → σ × β} {k : β → Code σ ε α} :
    Settles Good K Q (act f >>= k) m s ↔ ∀ s', (m.held = true → K s s') → ∀ e,
      (m.held = false → K s' (f s' e).1) ∧
        ∃ owing', Pays Good m.owing owing' s' (f s' e).1 ∧
          Settles Good K Q (k (f s' e).2) { m with owing := owing' } (f s' e).1 := Iff.rfl

theorem settles_act {f : σ → ε → σ × α} :
    Settles Good K Q (act f) m s ↔ Settles Good K Q (act f >>= pure) m s := Iff.rfl

theorem settles_pure {a : α} (h : ∀ s', (m.held = true → K s s') → Q m a s') :
    Settles Good K Q (pure a : Code σ ε α) m s := h

theorem Settles.rely (htrans : ∀ a b c, K a b → K b c → K a c) {s' : σ}
    (h : Settles Good K Q p m s) (hK : m.held = true → K s s') : Settles Good K Q p m s' := by
  cases p with
  | ret _ | step _ _ => exact fun t ht => h t fun hm => htrans _ _ _ (hK hm) (ht hm)
  | lock next => exact ⟨h.1, h.2⟩
  | unlock next => exact ⟨h.1, fun t ht => h.2 t (htrans _ _ _ (hK h.1) ht)⟩

theorem settles_of_rely (hrefl : ∀ a, K a a)
    (h : ∀ s', (m.held = true → K s s') → Settles Good K Q p m s') : Settles Good K Q p m s := by
  cases p with
  | ret _ | step _ _ => exact fun t ht => h t ht t fun _ => hrefl t
  | lock next => exact h s fun _ => hrefl s
  | unlock next => exact ⟨(h s fun _ => hrefl s).1, fun t ht => (h t fun _ => ht).2 t (hrefl t)⟩

/-- **Sequential composition.** -/
theorem settles_bind (hrefl : ∀ a, K a a) {P : Standing → β → σ → Prop} {p : Code σ ε β}
    {f : β → Code σ ε α} (hp : Settles Good K P p m s)
    (hf : ∀ m b s', P m b s' → Settles Good K Q (f b) m s') : Settles Good K Q (p >>= f) m s := by
  induction p generalizing m s with
  | ret b => exact settles_of_rely hrefl fun s' hs' => hf m b s' (hp s' hs')
  | step upd next ih =>
    intro s' hs' e
    obtain ⟨hK, owing', hpays, hnext⟩ := hp s' hs' e
    exact ⟨hK, owing', hpays, ih s' e hnext⟩
  | lock next ih => exact ⟨hp.1, fun s' => ih (hp.2 s')⟩
  | unlock next ih => exact ⟨hp.1, fun s' hs' => ih (hp.2 s' hs')⟩

/-- **A critical section**: what it has seen lasts until its end. -/
theorem settles_locked (hrefl : ∀ a, K a a) {P : Standing → α → σ → Prop} {owing : Bool}
    (hp : ∀ s', Settles Good K P p ⟨true, owing⟩ s')
    (hend : ∀ m a s', P m a s' → m.held = true ∧ ∀ t, Q { m with held := false } a t) :
    Settles Good K Q p.locked ⟨false, owing⟩ s := by
  refine ⟨rfl, fun s' => settles_bind hrefl (hp s') fun m a s' h => ?_⟩
  obtain ⟨hheld, hQ⟩ := hend m a s' h
  exact ⟨hheld, fun _ _ t _ => hQ t⟩

variable {f : σ → ε → σ × β} {k : β → Code σ ε α}

theorem settles_keep (h : ∀ s', (m.held = true → K s s') → ∀ e,
      (m.held = false → K s' (f s' e).1) ∧ (Good s' → Good (f s' e).1) ∧
        Settles Good K Q (k (f s' e).2) m (f s' e).1) :
    Settles Good K Q (act f >>= k) m s := by
  refine settles_act_bind.mpr fun s' hs' e => ?_
  obtain ⟨hK, hgood, hnext⟩ := h s' hs' e
  refine ⟨hK, m.owing, fun hm hs => hgood (hs.resolve_left ?_), hnext⟩
  rw [hm]
  exact false_ne_true

theorem settles_pay (h : ∀ s', (m.held = true → K s s') → ∀ e,
      (m.held = false → K s' (f s' e).1) ∧ Good (f s' e).1 ∧
        Settles Good K Q (k (f s' e).2) { m with owing := false } (f s' e).1) :
    Settles Good K Q (act f >>= k) m s := by
  refine settles_act_bind.mpr fun s' hs' e => ?_
  obtain ⟨hK, hgood, hnext⟩ := h s' hs' e
  exact ⟨hK, false, fun _ _ => hgood, hnext⟩

theorem settles_borrow (h : ∀ s', (m.held = true → K s s') → ∀ e,
      (m.held = false → K s' (f s' e).1) ∧
        Settles Good K Q (k (f s' e).2) { m with owing := true } (f s' e).1) :
    Settles Good K Q (act f >>= k) m s := by
  refine settles_act_bind.mpr fun s' hs' e => ?_
  obtain ⟨hK, hnext⟩ := h s' hs' e
  exact ⟨hK, true, nofun, hnext⟩

end Code

/-! ### Runs -/

namespace System

open Code List

variable {σ ε α κ : Type} (Good : σ → Prop) (K : σ → σ → Prop)

/-- At the end a program has neither the mutex nor a debt. -/
def Done (m : Standing) (_ : α) (_ : σ) : Prop := m = ⟨false, false⟩

/-- The programs that are owing: each program settles what it owes, and if the state is not
good, one of them is owing. -/
structure Account (S : System σ ε α) (owing : ℕ → Bool) : Prop where
  settles : ∀ i p, S.threads[i]? = some p →
    Settles Good K Done p ⟨decide (S.holder = some i), owing i⟩ S.state
  absent : ∀ i, S.threads[i]? = none → owing i = false ∧ S.holder ≠ some i
  good : Good S.state ∨ ∃ i, owing i = true

def Settled (S : System σ ε α) : Prop := ∃ owing, Account Good K S owing

variable {Good K} {code : κ → Code σ ε α} {S : System σ ε α} {owing : ℕ → Bool} {p : Code σ ε α}

theorem Account.call (h : Account Good K S owing)
    (hp : ∀ s, Settles Good K Done p ⟨false, false⟩ s) :
    Account Good K { S with threads := S.threads ++ [p] } owing where
  settles i q hq := by
    rcases Nat.lt_or_ge i S.threads.length with hlt | hge
    · rw [getElem?_append_left hlt] at hq
      exact h.settles i q hq
    obtain ⟨howing, hholder⟩ := h.absent i (List.getElem?_eq_none hge)
    rw [getElem?_append_right hge] at hq
    obtain rfl := mem_singleton.mp (mem_of_getElem? hq)
    rw [howing, decide_eq_false hholder]
    exact hp S.state
  absent i hi := by
    have hlen := getElem?_eq_none_iff.mp hi
    rw [length_append] at hlen
    exact h.absent i (List.getElem?_eq_none (Nat.le_of_add_right_le hlen))
  good := h.good

theorem Account.move (htrans : ∀ a b c, K a b → K b c → K a c) (h : Account Good K S owing)
    {i : ℕ} {p' : Code σ ε α} (hi : S.threads[i]? = some p) {state : σ} {holder : Option ℕ}
    {o : Bool} (hp' : Settles Good K Done p' ⟨decide (holder = some i), o⟩ state)
    (hholder : ∀ j, j ≠ i → (holder = some j ↔ S.holder = some j))
    (hK : S.holder ≠ some i → K S.state state) (hpays : Pays Good (owing i) o S.state state) :
    Account Good K ⟨state, holder, S.threads.set i p'⟩ (Function.update owing i o) where
  settles j q hq := by
    rw [getElem?_set] at hq
    by_cases hij : i = j
    · subst hij
      rw [if_pos rfl, if_pos (List.getElem?_eq_some_iff.mp hi).1] at hq
      cases hq
      rw [update_self]
      exact hp'
    rw [if_neg hij] at hq
    rw [update_of_ne (Ne.symm hij), decide_eq_decide.mpr (hholder j (Ne.symm hij))]
    refine (h.settles j q hq).rely htrans fun hj => hK fun hi' => hij ?_
    exact some.inj (hi'.symm.trans (of_decide_eq_true hj))
  absent j hj := by
    have hlen := getElem?_eq_none_iff.mp hj
    rw [length_set] at hlen
    have hij : j ≠ i := by
      rintro rfl
      exact Nat.not_lt.mpr hlen (List.getElem?_eq_some_iff.mp hi).1
    obtain ⟨howing, hj'⟩ := h.absent j (List.getElem?_eq_none hlen)
    rw [update_of_ne hij]
    exact ⟨howing, fun hh => hj' ((hholder j hij).mp hh)⟩
  good := by
    -- whoever else is owing stays so
    have hother : ∀ j, j ≠ i → owing j = true → ∃ j, Function.update owing i o j = true := by
      intro j hj howing
      refine ⟨j, ?_⟩
      rw [update_of_ne hj]
      exact howing
    cases ho : o with
    | true => exact .inr ⟨i, update_self ..⟩
    | false => ?_
    rw [ho] at hother hpays
    rcases h.good with hgood | ⟨j, hj⟩
    · exact .inl (hpays rfl (.inr hgood))
    by_cases hji : j = i
    · rw [hji] at hj
      exact .inl (hpays rfl (.inl hj))
    · exact .inr (hother j hji hj)

theorem pays_self (owing : Bool) (s : σ) : Pays Good owing owing s s := by
  intro ho hs
  refine hs.resolve_left ?_
  rw [ho]
  exact false_ne_true

theorem Settled.apply (hrefl : ∀ a, K a a) (htrans : ∀ a b c, K a b → K b c → K a c)
    (hcode : ∀ k s, Settles Good K Done (code k) ⟨false, false⟩ s) (h : Settled Good K S)
    (ev : Event κ ε) : Settled Good K (S.apply code ev) := by
  obtain ⟨owing, h⟩ := h
  cases ev with
  | call k => exact ⟨owing, h.call (hcode k)⟩
  | run i e => ?_
  rw [System.apply]
  split
  · next upd next hi =>
    obtain ⟨hK, o, hpays, hnext⟩ := h.settles i _ hi S.state (fun _ => hrefl _) e
    exact ⟨_, h.move htrans hi hnext (fun _ _ => Iff.rfl) (fun hh => hK (decide_eq_false hh)) hpays⟩
  · next next hi =>
    obtain ⟨hheld, hnext⟩ := h.settles i _ hi
    split
    · next hfree =>
      refine ⟨_, h.move (o := owing i) htrans hi ?_ ?_ (fun _ => hrefl _) (pays_self _ _)⟩
      · rw [decide_eq_true rfl]
        exact hnext S.state
      intro j hj
      rw [hfree]
      exact ⟨fun hh => absurd (some.inj hh).symm hj, nofun⟩
    · exact ⟨owing, h⟩
  · next next hi =>
    obtain ⟨hheld, hnext⟩ := h.settles i _ hi
    refine ⟨_, h.move (o := owing i) htrans hi
      (hnext S.state (hrefl _)) ?_ (fun _ => hrefl _) (pays_self _ _)⟩
    intro j hj
    rw [of_decide_eq_true hheld]
    exact ⟨nofun, fun hh => absurd (some.inj hh).symm hj⟩
  · exact ⟨owing, h⟩
  · exact ⟨owing, h⟩

/-- **Programs that settle what they owe do so along every run.** -/
theorem settled_exec (hrefl : ∀ a, K a a) (htrans : ∀ a b c, K a b → K b c → K a c)
    (hcode : ∀ k s, Settles Good K Done (code k) ⟨false, false⟩ s) (h : Settled Good K S)
    (events : List (Event κ ε)) : Settled Good K (S.exec code events) := by
  induction events generalizing S with
  | nil => exact h
  | cons ev events ih => exact ih (h.apply hrefl htrans hcode ev)

/-- **When nobody is at work, the state is good.** -/
theorem good_of_idle (hrefl : ∀ a, K a a) (h : Settled Good K S) (hidle : S.idle = true) :
    Good S.state := by
  obtain ⟨owing, h⟩ := h
  rcases h.good with hgood | ⟨i, hi⟩
  · exact hgood
  cases hp : S.threads[i]? with
  | none => exact absurd hi (eq_false_iff.mp (h.absent i hp).1)
  | some p => ?_
  have hret := all_eq_true.mp hidle p (mem_of_getElem? hp)
  cases p with
  | ret a =>
    have hdone := h.settles i _ hp S.state fun _ => hrefl _
    exact absurd hi (eq_false_iff.mp (congrArg Standing.owing hdone))
  | step | lock | unlock => cases hret

end System

end Locked
