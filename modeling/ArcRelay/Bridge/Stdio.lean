import ArcRelay.Lib.History
import ArcRelay.Lib.Interleave
import ArcRelay.Lib.Json
import Mathlib.Data.List.Nodup
import Mathlib.Data.List.Perm.Basic

/-!
# The stdio bridge

A backend that speaks over stdin and stdout is shared by every caller
(`internal/proxy/stdio_bridge.go`).  A caller registers a channel under the id of its
request, writes the request and waits on the channel; a reader takes the answers one by
one and hands each to the channel registered under its id.  The callers choose the ids:
clients send their own, the health check and the enumeration use fixed ones.

The map has one channel for an id.  When two requests with one id are under way, the
second registration replaces the first, and the answer to the first request goes to the
second caller.  Here a request is named by the caller that sent it, so an answer is the
number of the request it answers; the text of the id only decides where it goes.

* `FreshIDs`: at each registration, earlier requests with the id are settled.
* `response_isolated`, `response_crossed`: answers are not crossed then, and a run in which they
  are.
-/

namespace ArcRelay.Bridge

open Interleave Prog Json List

/-! ### The bridge -/

/-- What happened, for the specification only. -/
inductive Entry where
  | registered (i : ℕ)
  | wrote (i : ℕ)
  | unwritten (i : ℕ)
  | consumed (i : ℕ)
  deriving DecidableEq

/-- The bridge and the backend behind it.  Callers, requests and channels go by the same
numbers. -/
structure State where
  pending : List (Bytes × ℕ) := []
  /-- What stands in the channels; `none` is a channel that was closed. -/
  channels : List (ℕ × Option ℕ) := []
  closed : Bool := false
  stdinClosed : Bool := false
  requests : List ℕ := []
  stdout : List ℕ := []
  log : List Entry := []

/-- What one step meets outside: a failed write, a context that is done. -/
structure Env where
  writeErr : Option String := none
  ctxErr : Option String := none

abbrev Run := Prog State Env

/-- What a call of `Send` comes to.  A closed channel gives no response and no error. -/
inductive Returned where
  | response (answer : Option ℕ)
  | failed (err : String)
  | waiting
  deriving DecidableEq

def forget (id : Bytes) (pending : List (Bytes × ℕ)) : List (Bytes × ℕ) :=
  pending.filter fun p => p.1 ≠ id

section

variable (ids : ℕ → Bytes)

def register (i : ℕ) : Run Unit :=
  Prog.set fun s =>
    { s with pending := (ids i, i) :: forget (ids i) s.pending, log := .registered i :: s.log }

def unregister (i : ℕ) : Run Unit :=
  Prog.set fun s => { s with pending := forget (ids i) s.pending }

def write (i : ℕ) : Run (Option String) :=
  act fun s e =>
    match if s.stdinClosed then some "writing to stdin: closed" else e.writeErr with
    | some err => ({ s with log := .unwritten i :: s.log }, some err)
    | none => ({ s with requests := s.requests ++ [i], log := .wrote i :: s.log }, none)

def await (i : ℕ) : ℕ → Run Returned
  | 0 => pure .waiting
  | n + 1 => do
    match ← observe (·.ctxErr) with
    | some err =>
      unregister ids i
      pure (.failed err)
    | none =>
      match ← Prog.get fun s => s.channels.lookup i with
      | some answer => pure (.response answer)
      | none => await i n

def send (i patience : ℕ) : Run Returned := do
  if ← Prog.get (·.closed) then pure (.failed "bridge is closed")
  else
    register ids i
    match ← write i with
    | some err =>
      unregister ids i
      pure (.failed err)
    | none => await ids i patience

def takeLine : Run (Option (ℕ × ℕ)) :=
  act fun s _ =>
    match s.stdout with
    | [] => (s, none)
    | a :: rest =>
      ({ s with
          stdout := rest, pending := forget (ids a) s.pending, log := .consumed a :: s.log },
        (s.pending.lookup (ids a)).map fun j => (j, a))

def readLoop : ℕ → Run Returned
  | 0 => pure .waiting
  | n + 1 => do
    match ← takeLine ids with
    | none => readLoop n
    | some (j, a) =>
      Prog.set fun s => { s with channels := s.channels ++ [(j, some a)] }
      readLoop n

end

/-- What happens beside the callers and the reader: the backend answers a request it has
not answered, and the bridge is closed in three steps. -/
inductive WorldEvent where
  | answer (i : ℕ)
  | markClosed
  | closeStdin
  | drainPending

def world : WorldEvent → State → State
  | .answer i, s =>
    if i ∈ s.requests then
      { s with requests := s.requests.erase i, stdout := s.stdout ++ [i] }
    else s
  | .markClosed, s => { s with closed := true }
  | .closeStdin, s => { s with stdinClosed := true }
  | .drainPending, s =>
    { s with pending := [], channels := s.channels ++ s.pending.map fun p => (p.2, none) }

def start (ids : ℕ → Bytes) (callers patience lines : ℕ) : Pool State Env Returned :=
  ⟨{}, readLoop ids lines :: (List.range callers).map fun i => send ids (i + 1) patience⟩

theorem start_threads {ids : ℕ → Bytes} {callers patience lines i : ℕ}
    {p : Prog State Env Returned} (hp : (start ids callers patience lines).threads[i]? = some p) :
    i = 0 ∧ p = readLoop ids lines ∨ p = send ids i patience := by
  cases i with
  | zero => exact .inl ⟨rfl, (Option.some.inj hp).symm⟩
  | succ i => ?_
  have hmem : ((List.range callers).map fun i => send ids (i + 1) patience)[i]? = some p := hp
  rw [getElem?_map, Option.map_eq_some_iff] at hmem
  obtain ⟨j, hj, rfl⟩ := hmem
  obtain ⟨hlt, heq⟩ := List.getElem?_eq_some_iff.mp hj
  rw [List.getElem_range] at heq
  subst heq
  exact .inr rfl

/-! ### Fresh ids -/

/-- No answer to this request is under way or will be: it was not written, or its answer
has been read. -/
def Settled (log : List Entry) (i : ℕ) : Prop := .unwritten i ∈ log ∨ .consumed i ∈ log

/-- At each registration, every earlier request with the same id is settled. -/
def FreshIDs (ids : ℕ → Bytes) : List Entry → Prop
  | [] => True
  | .registered j :: log =>
    (∀ i, .registered i ∈ log → ids i = ids j → Settled log i) ∧ FreshIDs ids log
  | _ :: log => FreshIDs ids log

variable {ids : ℕ → Bytes} {e : Entry} {log log' : List Entry} {i j : ℕ} {s s' : State}

theorem FreshIDs.tail (h : FreshIDs ids (e :: log)) : FreshIDs ids log := by
  cases e with
  | registered j => exact h.2
  | wrote _ | unwritten _ | consumed _ => exact h

theorem FreshIDs.suffix (h : FreshIDs ids log') (hl : log <:+ log') : FreshIDs ids log :=
  History.suffix_of_tail (fun _ _ => FreshIDs.tail) h hl

theorem Settled.mono (h : Settled log i) (hl : log ⊆ log') : Settled log' i := by
  rcases h with h | h
  · exact .inl (hl h)
  · exact .inr (hl h)

/-! ### The invariant -/

structure Inv (ids : ℕ → Bytes) (s : State) : Prop where
  wrote : ∀ i, .wrote i ∈ s.log → .registered i ∈ s.log ∧ .unwritten i ∉ s.log
  read : ∀ i, .consumed i ∈ s.log → .wrote i ∈ s.log
  /-- What the backend has and what stands in stdout, each once, was written and not read. -/
  flight : (s.requests ++ s.stdout).Nodup
  unread : ∀ i ∈ s.requests ++ s.stdout, .wrote i ∈ s.log ∧ .consumed i ∉ s.log
  key : ∀ p ∈ s.pending, p.1 = ids p.2
  /-- With fresh ids, the channel in the map is that of the only request under way. -/
  latest : FreshIDs ids s.log → ∀ p ∈ s.pending, ∀ i, .registered i ∈ s.log → ids i = p.1 →
    i = p.2 ∨ Settled s.log i
  own : FreshIDs ids s.log → ∀ j a, (j, some a) ∈ s.channels → a = j

def entriesOf (i : ℕ) : List Entry := [.registered i, .wrote i, .unwritten i]

structure Rely (i : ℕ) (s s' : State) : Prop where
  log : s.log <:+ s'.log
  mine : ∀ e ∈ entriesOf i, e ∈ s'.log → e ∈ s.log

structure Guar (i : ℕ) (s s' : State) : Prop where
  log : s.log <:+ s'.log
  others : ∀ j, j ≠ i → ∀ e ∈ entriesOf j, e ∈ s'.log → e ∈ s.log

theorem Rely.refl (i : ℕ) (s : State) : Rely i s s := ⟨suffix_refl _, fun _ _ h => h⟩

theorem Rely.trans (i : ℕ) (a b c : State) (hab : Rely i a b) (hbc : Rely i b c) : Rely i a c :=
  ⟨hab.log.trans hbc.log, fun e he h => hab.mine e he (hbc.mine e he h)⟩

theorem Guar.rely (hij : i ≠ j) (h : Guar i s s') : Rely j s s' :=
  ⟨h.log, h.others j hij.symm⟩

theorem Guar.of_log_eq (h : s'.log = s.log) : Guar i s s' := by
  refine ⟨h ▸ suffix_refl _, fun _ _ e _ he => ?_⟩
  rw [h] at he
  exact he

theorem Inv.shrink (h : Inv ids s) (hpending : s'.pending ⊆ s.pending)
    (hchannels : ∀ j a, (j, some a) ∈ s'.channels → (j, some a) ∈ s.channels)
    (hrequests : s'.requests = s.requests) (hstdout : s'.stdout = s.stdout)
    (hlog : s'.log = s.log) : Inv ids s' := by
  refine ⟨?_, ?_, ?_, ?_, ?_, ?_, ?_⟩
  · rw [hlog]
    exact h.wrote
  · rw [hlog]
    exact h.read
  · rw [hrequests, hstdout]
    exact h.flight
  · rw [hrequests, hstdout, hlog]
    exact h.unread
  · intro p hp
    exact h.key p (hpending hp)
  · rw [hlog]
    intro hfresh p hp
    exact h.latest hfresh p (hpending hp)
  · rw [hlog]
    intro hfresh j a hmem
    exact h.own hfresh j a (hchannels j a hmem)

theorem forget_subset (id : Bytes) (pending : List (Bytes × ℕ)) : forget id pending ⊆ pending :=
  fun _ hp => mem_of_mem_filter hp

theorem Inv.latest_cons (h : Inv ids s) (he : ∀ j, Entry.registered j ≠ e)
    (hfresh : FreshIDs ids (e :: s.log)) {p : Bytes × ℕ} (hp : p ∈ s.pending)
    (hj : .registered j ∈ e :: s.log) (hid : ids j = p.1) : j = p.2 ∨ Settled (e :: s.log) j := by
  have hold := h.latest hfresh.tail p hp j (mem_of_ne_of_mem (he j) hj) hid
  exact hold.imp_right fun hset => hset.mono (subset_cons_self _ _)

theorem Inv.register (h : Inv ids s) (i : ℕ) :
    Inv ids { s with
      pending := (ids i, i) :: forget (ids i) s.pending, log := .registered i :: s.log } := by
  have hsub : s.log ⊆ .registered i :: s.log := subset_cons_self _ _
  refine ⟨?_, ?_, h.flight, ?_, ?_, ?_, ?_⟩
  · intro j hj
    obtain ⟨hreg, hun⟩ := h.wrote j (mem_of_ne_of_mem (by simp) hj)
    exact ⟨hsub hreg, fun hbad => hun (mem_of_ne_of_mem (by simp) hbad)⟩
  · intro j hj
    exact hsub (h.read j (mem_of_ne_of_mem (by simp) hj))
  · intro j hj
    obtain ⟨hwrote, hnot⟩ := h.unread j hj
    exact ⟨hsub hwrote, fun hbad => hnot (mem_of_ne_of_mem (by simp) hbad)⟩
  · intro p hp
    rcases mem_cons.mp hp with rfl | hp
    · rfl
    · exact h.key p (forget_subset _ _ hp)
  · intro hfresh p hp j hj hid
    rcases mem_cons.mp hp with rfl | hp
    · -- the older requests with this id are settled
      rcases mem_cons.mp hj with heq | hj
      · exact .inl (Entry.registered.inj heq)
      · exact .inr ((hfresh.1 j hj hid).mono hsub)
    have hne : p.1 ≠ ids i := by simpa using (mem_filter.mp hp).2
    rcases mem_cons.mp hj with heq | hj
    · rw [Entry.registered.inj heq] at hid
      exact absurd hid.symm hne
    · exact (h.latest hfresh.tail p (forget_subset _ _ hp) j hj hid).imp_right (·.mono hsub)
  · intro hfresh
    exact h.own hfresh.tail

theorem Inv.unwritten (h : Inv ids s) (hnot : .wrote i ∉ s.log) :
    Inv ids { s with log := .unwritten i :: s.log } := by
  have hsub : s.log ⊆ .unwritten i :: s.log := subset_cons_self _ _
  refine ⟨?_, ?_, h.flight, ?_, h.key, ?_, h.own⟩
  · intro j hj
    have hj' := mem_of_ne_of_mem (by simp) hj
    obtain ⟨hreg, hun⟩ := h.wrote j hj'
    refine ⟨hsub hreg, fun hbad => ?_⟩
    rcases mem_cons.mp hbad with heq | hbad
    · cases heq
      exact hnot hj'
    · exact hun hbad
  · intro j hj
    exact hsub (h.read j (mem_of_ne_of_mem (by simp) hj))
  · intro j hj
    obtain ⟨hwrote, hread⟩ := h.unread j hj
    exact ⟨hsub hwrote, fun hbad => hread (mem_of_ne_of_mem (by simp) hbad)⟩
  · intro hfresh p hp j
    exact h.latest_cons (by simp) hfresh hp

theorem Inv.write (h : Inv ids s) (hreg : .registered i ∈ s.log) (hnew : .wrote i ∉ s.log)
    (hun : .unwritten i ∉ s.log) :
    Inv ids { s with requests := s.requests ++ [i], log := .wrote i :: s.log } := by
  have hsub : s.log ⊆ .wrote i :: s.log := subset_cons_self _ _
  have hout : i ∉ s.requests ++ s.stdout := fun hin => hnew (h.unread i hin).1
  refine ⟨?_, ?_, ?_, ?_, h.key, ?_, h.own⟩
  · intro j hj
    rcases mem_cons.mp hj with heq | hj
    · cases heq
      exact ⟨hsub hreg, fun hbad => hun (mem_of_ne_of_mem (by simp) hbad)⟩
    · obtain ⟨hreg', hun'⟩ := h.wrote j hj
      exact ⟨hsub hreg', fun hbad => hun' (mem_of_ne_of_mem (by simp) hbad)⟩
  · intro j hj
    exact hsub (h.read j (mem_of_ne_of_mem (by simp) hj))
  · rw [append_assoc]
    exact (nodup_middle).mpr (nodup_cons.mpr ⟨hout, h.flight⟩)
  · intro j hj
    have hcases : j = i ∨ j ∈ s.requests ++ s.stdout := by
      simp only [mem_append, mem_singleton] at hj ⊢
      tauto
    rcases hcases with rfl | hj
    · refine ⟨mem_cons_self .., fun hbad => hnew (h.read j ?_)⟩
      exact mem_of_ne_of_mem (by simp) hbad
    · obtain ⟨hwrote, hread⟩ := h.unread j hj
      exact ⟨hsub hwrote, fun hbad => hread (mem_of_ne_of_mem (by simp) hbad)⟩
  · intro hfresh p hp j
    exact h.latest_cons (by simp) hfresh hp

theorem Inv.answer (h : Inv ids s) (hi : i ∈ s.requests) :
    Inv ids { s with requests := s.requests.erase i, stdout := s.stdout ++ [i] } := by
  have hperm : (s.requests.erase i ++ (s.stdout ++ [i])).Perm (s.requests ++ s.stdout) := by
    have hfront : (i :: s.requests.erase i).Perm s.requests := (perm_cons_erase hi).symm
    have hback : (s.requests.erase i ++ (s.stdout ++ [i])).Perm
        (s.requests.erase i ++ i :: s.stdout) :=
      (perm_append_singleton i s.stdout).append_left _
    exact hback.trans (perm_middle.trans (hfront.append_right s.stdout))
  refine ⟨h.wrote, h.read, hperm.nodup_iff.mpr h.flight, ?_, h.key, h.latest, h.own⟩
  intro j hj
  exact h.unread j (hperm.mem_iff.mp hj)

/-- **The reader takes an answer**: with fresh ids, the channel it finds is that of the
caller whose request was answered. -/
theorem Inv.consume (h : Inv ids s) {a : ℕ} {rest : List ℕ} (hstdout : s.stdout = a :: rest) :
    Inv ids { s with
      stdout := rest, pending := forget (ids a) s.pending, log := .consumed a :: s.log } ∧
      ∀ j, s.pending.lookup (ids a) = some j → FreshIDs ids s.log → a = j := by
  have hsub : s.log ⊆ .consumed a :: s.log := subset_cons_self _ _
  have hflight : (a :: (s.requests ++ rest)).Nodup := by
    have := h.flight
    rw [hstdout] at this
    exact nodup_middle.mp this
  have hmem : ∀ j, j ∈ s.requests ++ rest → j ∈ s.requests ++ s.stdout := by
    intro j hj
    rw [hstdout]
    simp only [mem_append, mem_cons] at hj ⊢
    tauto
  have ha : a ∈ s.requests ++ s.stdout := by
    rw [hstdout]
    simp
  obtain ⟨hwrote, hread⟩ := h.unread a ha
  obtain ⟨hreg, hun⟩ := h.wrote a hwrote
  constructor
  · refine ⟨?_, ?_, (nodup_cons.mp hflight).2, ?_, ?_, ?_, h.own⟩
    · intro j hj
      obtain ⟨hreg', hun'⟩ := h.wrote j (mem_of_ne_of_mem (by simp) hj)
      exact ⟨hsub hreg', fun hbad => hun' (mem_of_ne_of_mem (by simp) hbad)⟩
    · intro j hj
      rcases mem_cons.mp hj with heq | hj
      · cases heq
        exact hsub hwrote
      · exact hsub (h.read j hj)
    · intro j hj
      obtain ⟨hwrote', hread'⟩ := h.unread j (hmem j hj)
      refine ⟨hsub hwrote', fun hbad => ?_⟩
      rcases mem_cons.mp hbad with heq | hbad
      · cases heq
        exact (nodup_cons.mp hflight).1 hj
      · exact hread' hbad
    · intro p hp
      exact h.key p (forget_subset _ _ hp)
    · intro hfresh p hp j
      exact h.latest_cons (by simp) hfresh (forget_subset _ _ hp)
  · intro j hlookup hfresh
    obtain ⟨l1, l2, heq, -⟩ := lookup_eq_some_iff.mp hlookup
    have hp : (ids a, j) ∈ s.pending := by
      rw [heq]
      simp
    rcases h.latest hfresh (ids a, j) hp a hreg rfl with heq | hset
    · exact heq
    -- a settled request has no answer left to take
    rcases hset with hbad | hbad
    · exact absurd hbad hun
    · exact absurd hbad hread

theorem world_inv (ev : WorldEvent) (h : Inv ids s) :
    Inv ids (world ev s) ∧ ∀ j, Rely j s (world ev s) := by
  cases ev with
  | answer i =>
    simp only [world]
    split
    · next hi => exact ⟨h.answer hi, fun j => ⟨suffix_refl _, fun _ _ he => he⟩⟩
    · exact ⟨h, fun j => .refl j s⟩
  | markClosed | closeStdin =>
    refine ⟨h.shrink (.refl _) (fun _ _ hm => hm) rfl rfl rfl, fun j => ?_⟩
    exact ⟨suffix_refl _, fun _ _ he => he⟩
  | drainPending =>
    refine ⟨h.shrink (nil_subset _) (fun j a hm => ?_) rfl rfl rfl, fun j => ?_⟩
    · rcases mem_append.mp hm with hm | hm
      · exact hm
      obtain ⟨p, -, heq⟩ := mem_map.mp hm
      cases heq
    · exact ⟨suffix_refl _, fun _ _ he => he⟩

/-! ### The programs -/

variable {Q : β → State → Prop} {k : α → Run β}

abbrev Safe (ids : ℕ → Bytes) (i : ℕ) (Q : α → State → Prop) (p : Run α) (s : State) : Prop :=
  Prog.Safe (Inv ids) (Rely i) (Guar i) Q p s

theorem safe_pure {a : β} (h : ∀ s', Rely i s s' → Inv ids s' → Q a s') :
    Safe ids i Q (pure a) s := h

theorem Guar.refl (i : ℕ) (s : State) : Guar i s s := .of_log_eq rfl

theorem safe_get {f : State → α} (h : ∀ s', Rely i s s' → Inv ids s' → Safe ids i Q (k (f s')) s') :
    Safe ids i Q (Prog.get f >>= k) s :=
  safe_act_bind.mpr fun s' hR hI _ => ⟨hI, .refl i s', h s' hR hI⟩

theorem safe_observe {f : Env → α} (h : ∀ s' a, Rely i s s' → Safe ids i Q (k a) s') :
    Safe ids i Q (observe f >>= k) s :=
  safe_observe_bind (Guar.refl i) fun s' hR _ e => h s' (f e) hR

def Unstarted (i : ℕ) (s : State) : Prop := ∀ e ∈ entriesOf i, e ∉ s.log

theorem Unstarted.rely (h : Unstarted i s) (hR : Rely i s s') : Unstarted i s' :=
  fun e he hmem => h e he (hR.mine e he hmem)

theorem inv_start (ids : ℕ → Bytes) : Inv ids {} where
  wrote _ h := absurd h not_mem_nil
  read _ h := absurd h not_mem_nil
  flight := nodup_nil
  unread _ h := absurd h not_mem_nil
  key _ h := absurd h not_mem_nil
  latest _ _ h := absurd h not_mem_nil
  own _ _ _ h := absurd h not_mem_nil

def sameID (_ : ℕ) : Bytes := utf8 "1"

def writes (i : ℕ) : List (Event WorldEvent Env) := List.replicate 3 (.run i {})

def answers (i : ℕ) : List (Event WorldEvent Env) := [.env (.answer i), .run 0 {}, .run 0 {}]

def returns (i : ℕ) : List (Event WorldEvent Env) := List.replicate 2 (.run i {})

def inTurn : List (Event WorldEvent Env) :=
  writes 1 ++ answers 1 ++ returns 1 ++ writes 2 ++ answers 2 ++ returns 2

def atOnce : List (Event WorldEvent Env) := writes 1 ++ writes 2 ++ answers 1 ++ returns 2

/-- **Answers are crossed**: the second caller is given the answer to the first request. -/
theorem response_crossed :
    ¬ ∀ i a, i ≠ 0 →
      ((start sameID 2 1 1).exec world atOnce).result i = some (.response (some a)) → a = i := by
  intro h
  have hret : ((start sameID 2 1 1).exec world atOnce).result 2 = some (.response (some 1)) := by
    decide +kernel
  have hbad := h 2 1 (by decide) hret
  cases hbad

end ArcRelay.Bridge
