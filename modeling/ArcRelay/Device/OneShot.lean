import ArcRelay.Device.Auth

/-!
# A device is authorized once

A device code is meant to be good for one key and one delivery.  The handlers look at a
request and act on it in separate steps, so two browsers can both find it pending, and a
poll can find it pending, leave it in the map and read the approval that comes in between.

What is true is proved here for every interleaving: if no browser finds a request pending
while another one is still acting on it, and no approval comes between the two steps of a
poll, then a code gets one key at most, one poll at most gets it, and none does after a
denial.

* `OneShot`, `Separate`: the promise, and the condition.
* `authorization_one_shot`, `authorization_not_one_shot`: the theorem, and three runs without it.
-/

namespace ArcRelay.Device

open Interleave Prog List Entry

/-! ### Histories -/

/-- At most one key is created for a request, it is delivered to one poll at most, and to
none once the request was denied. -/
def OneShot : List Entry → Prop
  | [] => True
  | .keyed _ ref _ :: log => (∀ j key, .keyed j ref key ∉ log) ∧ OneShot log
  | .delivered _ ref _ :: log =>
    (∀ j key, .delivered j ref key ∉ log) ∧ (∀ j, .denied j ref ∉ log) ∧ OneShot log
  | _ :: log => OneShot log

/-- A browser that finds a request pending is the only one, those apart that could not create
a key; and when an approval takes effect, no poll has found the request pending and still has
to look at its status. -/
def Separate : List Entry → Prop
  | [] => True
  | .passed _ ref :: log => (∀ j, .passed j ref ∈ log → .failed j ref ∈ log) ∧ Separate log
  | .approved _ ref :: log =>
    (∀ j, .waited j ref ∈ log → ∃ status, .saw j ref status ∈ log) ∧ Separate log
  | _ :: log => Separate log

variable {e : Entry} {i : ℕ} {log : List Entry} {s : State}

theorem Separate.tail (h : Separate (e :: log)) : Separate log := by
  cases e with
  | passed _ _ | approved _ _ => exact h.2
  | _ => exact h

theorem Separate.alone (h : Separate log) {j ref : ℕ} (hij : i ≠ j) (hi : .passed i ref ∈ log)
    (hj : .passed j ref ∈ log) : .failed i ref ∈ log ∨ .failed j ref ∈ log := by
  induction log with
  | nil => cases hi
  | cons e log ih => ?_
  rcases mem_cons.mp hi with rfl | hi' <;> rcases mem_cons.mp hj with hj' | hj'
  · exact absurd (passed.inj hj').1.symm hij
  · exact .inr (mem_cons_of_mem _ (h.1 j hj'))
  · subst hj'
    exact .inl (mem_cons_of_mem _ (h.1 i hi'))
  · exact (ih h.tail hi' hj').imp (mem_cons_of_mem _) (mem_cons_of_mem _)

def Entry.owner : Entry → ℕ
  | .passed i _ | .failed i _ | .keyed i _ _ | .approved i _ | .denied i _ | .waited i _
  | .taken i _ | .saw i _ _ | .delivered i _ _ => i

def Entry.Decides (i : ℕ) : Entry → Prop
  | .failed j _ | .keyed j _ _ | .denied j _ => j = i
  | _ => False

def State.own (s : State) (i : ℕ) : List Entry := s.log.filter fun e => e.owner = i

theorem State.mem_own : e ∈ s.own i ↔ e ∈ s.log ∧ e.owner = i := by
  simp [State.own]

theorem State.mem_log_of_own {l : List Entry} (h : s.own i = l) (he : e ∈ l) : e ∈ s.log := by
  rw [← h] at he
  exact (State.mem_own.mp he).1

/-! ### The invariant -/

structure Inv (tools : Tools) (s : State) : Prop where
  codes : ∀ ref < s.heap.length, (s.request ref).deviceCode = tools.deviceCode ref
  mapped : ∀ ref ∈ s.requests, ref < s.heap.length
  status : ∀ ref, (s.request ref).status = .approved → ∃ i, .approved i ref ∈ s.log
  keyed : ∀ i ref key, .keyed i ref key ∈ s.log → .passed i ref ∈ s.log
  denied : ∀ i ref, .denied i ref ∈ s.log → .passed i ref ∈ s.log
  approved : ∀ i ref, .approved i ref ∈ s.log →
    (∃ key, .keyed i ref key ∈ s.log) ∧ (s.request ref).status ≠ .pending
  decided : ∀ i, ∀ e ∈ s.log, ∀ e' ∈ s.log, e.Decides i → e'.Decides i → e = e'
  taken : ∀ i ref, .taken i ref ∈ s.log → ref < s.heap.length ∧ ref ∉ s.requests
  takenOnce : ∀ i j ref, .taken i ref ∈ s.log → .taken j ref ∈ s.log → i = j
  saw : ∀ i ref, .saw i ref .approved ∈ s.log → ∃ j, .approved j ref ∈ s.log
  delivered : ∀ i ref key, .delivered i ref key ∈ s.log → .saw i ref .approved ∈ s.log
  /-- A poll that has found a request pending before its approval has looked at the status
  before, too. -/
  waited : Separate s.log → ∀ i j ref, .approved i ref ∈ s.log → .waited j ref ∈ s.log →
    ∃ status, .saw j ref status ∈ s.log
  sawTaken : Separate s.log → ∀ i ref, .saw i ref .approved ∈ s.log → .taken i ref ∈ s.log
  oneShot : Separate s.log → OneShot s.log

section

variable {tools : Tools} {s' s'' : State} {j ref : ℕ} {req : DeviceAuthRequest}
  {f : DeviceAuthRequest → DeviceAuthRequest}

variable (h : Inv tools s)

include h

theorem Inv.deciders (hsep : Separate s.log) {e' : Entry} (he : e ∈ s.log)
    (he' : e' ∈ s.log) (hi : e.Decides i) (hj : e'.Decides j) (hne : ∀ r, e ≠ .failed i r)
    (hne' : ∀ r, e' ≠ .failed j r) (hp : .passed i ref ∈ s.log) (hp' : .passed j ref ∈ s.log) :
    i = j := by
  by_contra hij
  rcases hsep.alone hij hp hp' with hfail | hfail
  · exact hne ref (h.decided i _ he _ hfail hi rfl)
  · exact hne' ref (h.decided j _ he' _ hfail hj rfl)

theorem Inv.not_denied (hsep : Separate s.log) (happ : .approved i ref ∈ s.log)
    (j : ℕ) : .denied j ref ∉ s.log := by
  intro hden
  obtain ⟨⟨key, hkey⟩, -⟩ := h.approved i ref happ
  obtain rfl := h.deciders hsep hkey hden rfl rfl nofun nofun (h.keyed i ref key hkey)
    (h.denied j ref hden)
  exact Entry.noConfusion (h.decided i _ hkey _ hden rfl rfl)

/-- What a step that adds one entry does to the rest: statuses only leave pending, and only
an approval makes one approved. -/
structure Moves (e : Entry) (s s' : State) : Prop where
  length : s'.heap.length = s.heap.length
  code : ∀ ref, (s'.request ref).deviceCode = (s.request ref).deviceCode
  pending : ∀ ref, (s'.request ref).status = .pending → (s.request ref).status = .pending
  approved : ∀ ref, (s'.request ref).status = .approved →
    (s.request ref).status = .approved ∨ ∃ i, e = .approved i ref
  requests : ∀ ref ∈ s'.requests, ref ∈ s.requests
  log : s'.log = e :: s.log

def Admissible (s s' : State) : Entry → Prop
  | .passed _ _ => True
  | .failed i _ => ∀ e ∈ s.log, ¬ e.Decides i
  | .keyed i ref _ => .passed i ref ∈ s.log ∧ ∀ e ∈ s.log, ¬ e.Decides i
  | .approved i ref => (∃ key, .keyed i ref key ∈ s.log) ∧ (s'.request ref).status ≠ .pending
  | .denied i ref => .passed i ref ∈ s.log ∧ ∀ e ∈ s.log, ¬ e.Decides i
  | .waited _ ref => (s.request ref).status = .pending
  | .taken _ ref => ref ∈ s.requests ∧ ref ∉ s'.requests
  | .saw i ref status => status = (s.request ref).status ∧ (∀ st, .saw i ref st ∉ s.log) ∧
    (.waited i ref ∈ s.log ∨ .taken i ref ∈ s.log)
  | .delivered i ref _ => .saw i ref .approved ∈ s.log ∧ ∀ key, .delivered i ref key ∉ s.log

theorem Inv.oneShot_cons (he : Admissible s s' e) (hsep : Separate s.log) :
    OneShot (e :: s.log) := by
  have hold := h.oneShot hsep
  cases e with
  | keyed i ref key =>
    refine ⟨fun j key' hkey' => ?_, hold⟩
    have hpassed := h.keyed j ref key' hkey'
    by_cases hij : i = j
    · exact he.2 _ hkey' hij.symm
    rcases hsep.alone hij he.1 hpassed with hfail | hfail
    · exact he.2 _ hfail rfl
    · exact Entry.noConfusion (h.decided j _ hkey' _ hfail rfl rfl)
  | delivered i ref key =>
    obtain ⟨hsaw, hfirst⟩ := he
    refine ⟨fun j key' hdel => ?_, fun j => ?_, hold⟩
    · have htaken := h.sawTaken hsep i ref hsaw
      have htaken' := h.sawTaken hsep j ref (h.delivered j ref key' hdel)
      obtain rfl := h.takenOnce i j ref htaken htaken'
      exact hfirst key' hdel
    · obtain ⟨k, happ⟩ := h.saw i ref hsaw
      exact h.not_denied hsep happ j
  | _ => exact hold

theorem Inv.saw_taken (hsep : Separate s.log)
    (he : Admissible s s' (.saw i ref .approved)) : .taken i ref ∈ s.log := by
  obtain ⟨hstatus, hfirst, hwaited | htaken⟩ := he
  · obtain ⟨k, happ⟩ := h.status ref hstatus.symm
    obtain ⟨status, hsaw⟩ := h.waited hsep k i ref happ hwaited
    exact absurd hsaw (hfirst status)
  · exact htaken

theorem Inv.step (hm : Moves e s s') (he : Admissible s s' e) : Inv tools s' := by
  have hgrow : ∀ e' ∈ s.log, e' ∈ s'.log := by
    intro e' he'
    rw [hm.log]
    exact mem_cons_of_mem e he'
  have hcases : ∀ e', e' ∈ s'.log → e' = e ∨ e' ∈ s.log := by
    intro e' he'
    rw [hm.log] at he'
    exact mem_cons.mp he'
  have hsepTail : Separate s'.log → Separate s.log := by
    rw [hm.log]
    exact Separate.tail
  refine ⟨fun ref hlt => ?_, fun ref href => ?_, fun ref hst => ?_, fun i ref key hmem => ?_,
    fun i ref hmem => ?_, fun i ref hmem => ?_, fun i a ha b hb hai hbi => ?_, fun i ref hmem => ?_,
    fun i j ref hi hj => ?_, fun i ref hmem => ?_, fun i ref key hmem => ?_,
    fun hsep i j ref hi hj => ?_, fun hsep i ref hmem => ?_, fun hsep => ?_⟩
  · rw [hm.length] at hlt
    rw [hm.code]
    exact h.codes ref hlt
  · rw [hm.length]
    exact h.mapped ref (hm.requests ref href)
  · rcases hm.approved ref hst with hold | ⟨i, rfl⟩
    · obtain ⟨i, happ⟩ := h.status ref hold
      exact ⟨i, hgrow _ happ⟩
    · exact ⟨i, hm.log ▸ mem_cons_self⟩
  · rcases hcases _ hmem with rfl | hold
    · exact hgrow _ he.1
    · exact hgrow _ (h.keyed i ref key hold)
  · rcases hcases _ hmem with rfl | hold
    · exact hgrow _ he.1
    · exact hgrow _ (h.denied i ref hold)
  · rcases hcases _ hmem with rfl | hold
    · obtain ⟨⟨key, hkey⟩, hst⟩ := he
      exact ⟨⟨key, hgrow _ hkey⟩, hst⟩
    · obtain ⟨⟨key, hkey⟩, hst⟩ := h.approved i ref hold
      exact ⟨⟨key, hgrow _ hkey⟩, fun hp => hst (hm.pending ref hp)⟩
  · -- whoever decides now has not decided before
    have hnew : e.Decides i → ∀ e' ∈ s.log, ¬ e'.Decides i := by
      intro hi
      cases e with
      | failed j ref => exact hi ▸ he
      | keyed _ _ _ | denied _ _ => exact hi ▸ he.2
      | _ => exact hi.elim
    rcases hcases a ha with rfl | ha' <;> rcases hcases b hb with rfl | hb'
    · rfl
    · exact absurd hbi (hnew hai b hb')
    · exact absurd hai (hnew hbi a ha')
    · exact h.decided i a ha' b hb' hai hbi
  · rcases hcases _ hmem with rfl | hold
    · rw [hm.length]
      exact ⟨h.mapped ref he.1, he.2⟩
    rw [hm.length]
    obtain ⟨hlt, hgone⟩ := h.taken i ref hold
    exact ⟨hlt, fun href => hgone (hm.requests ref href)⟩
  · rcases hcases _ hi with rfl | hi' <;> rcases hcases _ hj with hj' | hj'
    · exact (taken.inj hj').1.symm
    · exact absurd he.1 (h.taken j ref hj').2
    · subst hj'
      exact absurd he.1 (h.taken i ref hi').2
    · exact h.takenOnce i j ref hi' hj'
  · rcases hcases _ hmem with rfl | hold
    · obtain ⟨k, happ⟩ := h.status ref he.1.symm
      exact ⟨k, hgrow _ happ⟩
    · obtain ⟨k, happ⟩ := h.saw i ref hold
      exact ⟨k, hgrow _ happ⟩
  · rcases hcases _ hmem with rfl | hold
    · exact hgrow _ he.1
    · exact hgrow _ (h.delivered i ref key hold)
  · have hsep' := hsepTail hsep
    rcases hcases _ hi with rfl | hi' <;> rcases hcases _ hj with hj' | hj'
    · exact Entry.noConfusion hj'
    · rw [hm.log] at hsep
      obtain ⟨status, hsaw⟩ := hsep.1 j hj'
      exact ⟨status, hgrow _ hsaw⟩
    · subst hj'
      exact absurd he (h.approved i ref hi').2
    · obtain ⟨status, hsaw⟩ := h.waited hsep' i j ref hi' hj'
      exact ⟨status, hgrow _ hsaw⟩
  · rcases hcases _ hmem with rfl | hold
    · exact hgrow _ (h.saw_taken (hsepTail hsep) he)
    · exact hgrow _ (h.sawTaken (hsepTail hsep) i ref hold)
  · rw [hm.log]
    exact h.oneShot_cons he (hsepTail hsep)

theorem Inv.shrink {l : List ℕ} (hl : ∀ ref ∈ l, ref ∈ s.requests) :
    Inv tools { s with requests := l } :=
  { h with
    mapped := fun ref href => h.mapped ref (hl ref href)
    taken := fun i ref hmem => ⟨(h.taken i ref hmem).1, fun href =>
      (h.taken i ref hmem).2 (hl ref href)⟩ }

omit h

theorem request_append (s : State) (l : List ℕ) (ref : ℕ) :
    ({ s with heap := s.heap ++ [req], requests := l } : State).request ref =
      if ref = s.heap.length then req else s.request ref := by
  simp only [State.request]
  rcases Nat.lt_trichotomy ref s.heap.length with hlt | rfl | hlt
  · rw [getElem?_append_left hlt, if_neg (by omega)]
  · rw [getElem?_concat_length, if_pos rfl, Option.getD_some]
  · rw [if_neg (by omega), getElem?_eq_none (by simp; omega), getElem?_eq_none (by omega)]

theorem Inv.create (h : Inv tools s) (hcode : req.deviceCode = tools.deviceCode s.heap.length)
    (hst : req.status = .pending) :
    Inv tools { s with heap := s.heap ++ [req], requests := s.heap.length :: s.requests } := by
  -- a place outside the heap reads as pending, so no status changes
  have hout : (s.request s.heap.length).status = .pending := by simp [State.request]
  have hstatus : ∀ l ref, (({ s with heap := s.heap ++ [req], requests := l } : State).request
      ref).status = (s.request ref).status := by
    intro l ref
    rw [request_append]
    split
    · next href => rw [hst, href, hout]
    · rfl
  refine { h with
    codes := fun ref hlt => ?_
    mapped := fun ref href => ?_
    status := fun ref hap => ?_
    approved := fun i ref hmem => ?_
    taken := fun i ref hmem => ?_ }
  · rw [request_append]
    split
    · next href => rw [hcode, href]
    next href =>
    rw [length_append, length_singleton] at hlt
    exact h.codes ref (by omega)
  · rw [length_append, length_singleton]
    rcases mem_cons.mp href with rfl | hold
    · exact Nat.lt_succ_self _
    · exact Nat.lt_succ_of_lt (h.mapped ref hold)
  · rw [hstatus] at hap
    exact h.status ref hap
  · rw [hstatus]
    exact h.approved i ref hmem
  · obtain ⟨hlt, hgone⟩ := h.taken i ref hmem
    rw [length_append, length_singleton]
    refine ⟨Nat.lt_succ_of_lt hlt, fun href => ?_⟩
    rcases mem_cons.mp href with rfl | hold
    · exact Nat.lt_irrefl _ hlt
    · exact hgone hold

/-! ### Changes of a request -/

theorem Moves.of_log (s : State) (keys : List DeviceKey) :
    Moves e s { s with keys := keys, log := e :: s.log } :=
  ⟨rfl, fun _ => rfl, fun _ h => h, fun _ h => .inl h, fun _ h => h, rfl⟩

theorem request_modify (hlt : ref < s.heap.length) (ref' : ℕ) :
    ({ s with heap := s.heap.modify ref f, log := log } : State).request ref' =
      if ref = ref' then f (s.request ref') else s.request ref' := by
  simp only [State.request, getElem?_modify]
  by_cases href : ref = ref'
  · subst href
    simp [getElem?_eq_getElem hlt]
  · simp [href]

theorem Moves.of_modify (hlt : ref < s.heap.length) (hcode : ∀ r, (f r).deviceCode = r.deviceCode)
    (hpending : ∀ r, (f r).status ≠ .pending)
    (happ : ∀ r, (f r).status = .approved → ∃ i, e = .approved i ref) :
    Moves e s { s with heap := s.heap.modify ref f, log := e :: s.log } := by
  refine ⟨length_modify .., fun ref' => ?_, fun ref' hp => ?_, fun ref' ha => ?_, fun _ h => h, rfl⟩
  · rw [request_modify hlt]
    split
    · exact hcode _
    · rfl
  · rw [request_modify hlt] at hp
    split at hp
    · exact absurd hp (hpending _)
    · exact hp
  · rw [request_modify hlt] at ha
    split at ha
    · next href => exact .inr (href ▸ happ _ ha)
    · exact .inl ha

theorem Inv.lookup (h : Inv tools s) {deviceCode : String} (hl : s.lookup deviceCode = some ref) :
    ref ∈ s.requests ∧ ref < s.heap.length ∧ tools.deviceCode ref = deviceCode := by
  have hmem := mem_of_find?_eq_some hl
  have hcode := find?_some hl
  have hlt := h.mapped ref hmem
  rw [decide_eq_true_iff, h.codes ref hlt] at hcode
  exact ⟨hmem, hlt, hcode⟩

/-! ### What handlers do to each other -/

/-- What the others do: nothing to what this handler has written, and requests stay. -/
structure Rely (i : ℕ) (s s' : State) : Prop where
  own : s'.own i = s.own i
  heap : s.heap.length ≤ s'.heap.length

def Guar (i : ℕ) (s s' : State) : Prop := ∀ j, i ≠ j → Rely j s s'

theorem Rely.refl (i : ℕ) (s : State) : Rely i s s := ⟨rfl, Nat.le_refl _⟩

theorem Rely.trans (h : Rely i s s') (h' : Rely i s' s'') : Rely i s s'' :=
  ⟨h'.own.trans h.own, Nat.le_trans h.heap h'.heap⟩

theorem Guar.refl (i : ℕ) (s : State) : Guar i s s := fun j _ => Rely.refl j s

theorem Moves.own (hm : Moves e s s') (i : ℕ) :
    s'.own i = if e.owner = i then e :: s.own i else s.own i := by
  rw [State.own, hm.log, filter_cons, State.own]
  simp only [decide_eq_true_eq]

theorem Moves.guar (hm : Moves e s s') (he : e.owner = i) : Guar i s s' := by
  intro j hij
  refine ⟨?_, Nat.le_of_eq hm.length.symm⟩
  rw [hm.own, if_neg (he ▸ hij)]

theorem undecided_of_own (h : ∀ e ∈ s.own i, ¬ e.Decides i) : ∀ e ∈ s.log, ¬ e.Decides i := by
  intro e he hdec
  refine h e (State.mem_own.mpr ⟨he, ?_⟩) hdec
  cases e with
  | failed _ _ | keyed _ _ _ | denied _ _ => exact hdec
  | _ => exact hdec.elim

end

/-! ### The handlers -/

abbrev Sound {α : Type} (tools : Tools) (i : ℕ) (Q : α → State → Prop) (p : Run α) (s : State) :
    Prop :=
  p.Safe (Inv tools) (Rely i) (Guar i) Q s

variable {α : Type} {tools : Tools} {ref : ℕ} {Q : α → State → Prop} {deviceCode userID : String}
  {a : α} {k : Unit → Run α}

theorem Inv.write {s' : State} (h : Inv tools s) (hm : Moves e s s') (he : Admissible s s' e)
    (howner : e.owner = i) : Inv tools s' ∧ Guar i s s' ∧ s'.own i = e :: s.own i :=
  ⟨h.step hm he, hm.guar howner, by rw [hm.own, if_pos howner]⟩

theorem start_sound : Sound tools i (fun _ _ => True) (handleDeviceAuthStart tools) s := by
  refine safe_act_bind.mpr fun t _ hI e => ?_
  split
  · exact ⟨hI, Guar.refl i t, safe_true⟩
  · exact ⟨hI, Guar.refl i t, safe_true⟩
  refine ⟨hI.create rfl rfl, fun j _ => ⟨rfl, ?_⟩, safe_true⟩
  simp

theorem get_sound {k : Option ℕ → Run α} (hnone : ∀ t, Sound tools i Q (k none) t)
    (hsome : ∀ t ref, Rely i s t → ref < t.heap.length → tools.deviceCode ref = deviceCode →
      Sound tools i Q (k (some ref)) t) : Sound tools i Q (get deviceCode >>= k) s := by
  refine safe_act_bind.mpr fun t hR hI e => ?_
  cases hl : t.lookup deviceCode with
  | none => exact ⟨hI, Guar.refl i t, hnone t⟩
  | some ref => ?_
  refine ⟨hI, Guar.refl i t, ?_⟩
  obtain ⟨-, hlt, hcode⟩ := hI.lookup hl
  dsimp only
  split
  · exact hnone t
  · exact hsome t ref hR hlt hcode

theorem isPending_sound {k : Bool → Run α} (hown : s.own i = [])
    (htrue : ∀ t, s.heap.length ≤ t.heap.length → t.own i = [.passed i ref] →
      Sound tools i Q (k true) t)
    (hfalse : ∀ t, Sound tools i Q (k false) t) :
    Sound tools i Q (isPending i ref >>= k) s := by
  refine safe_act_bind.mpr fun t hR hI e => ?_
  split
  · have hm := Moves.of_log (e := .passed i ref) t t.keys
    obtain ⟨hI', hG, hown'⟩ := hI.write (i := i) hm trivial rfl
    rw [hR.own, hown] at hown'
    exact ⟨hI', hG, htrue _ hR.heap hown'⟩
  · exact ⟨hI, Guar.refl i t, hfalse t⟩

theorem may_decide (hown : s.own i = [.passed i ref]) :
    .passed i ref ∈ s.log ∧ ∀ e ∈ s.log, ¬ e.Decides i := by
  refine ⟨State.mem_log_of_own hown mem_cons_self, undecided_of_own fun e he => ?_⟩
  rw [hown] at he
  rw [mem_singleton.mp he]
  exact id

theorem deny_sound (hown : s.own i = [.passed i ref]) (hk : ∀ t, Sound tools i Q (k ()) t) :
    Sound tools i Q (deny i ref deviceCode >>= k) s := by
  refine safe_act_bind.mpr fun t hR hI e => ?_
  have hmay := may_decide (hR.own.trans hown)
  cases hl : t.lookup deviceCode with
  | none =>
    obtain ⟨hI', hG, -⟩ := hI.write (e := .denied i ref) (Moves.of_log t t.keys) hmay rfl
    exact ⟨hI', hG, hk _⟩
  | some ref' => ?_
  obtain ⟨-, hlt, -⟩ := hI.lookup hl
  have hm : Moves (.denied i ref) t _ := Moves.of_modify (s := t)
    (f := fun r => { r with status := .denied }) hlt (fun _ => rfl) (fun _ => nofun)
    fun _ => nofun
  obtain ⟨hI', hG, -⟩ := hI.write hm hmay rfl
  exact ⟨hI', hG, hk _⟩

theorem createAPIKey_sound {profileID : Option String} {k : Option String → Run α}
    (hown : s.own i = [.passed i ref]) (hnone : ∀ t, Sound tools i Q (k none) t)
    (hsome : ∀ t key, s.heap.length ≤ t.heap.length →
      t.own i = [.keyed i ref key, .passed i ref] → Sound tools i Q (k (some key)) t) :
    Sound tools i Q (createAPIKey i ref userID profileID >>= k) s := by
  refine safe_act_bind.mpr fun t hR hI e => ?_
  have hmay := may_decide (hR.own.trans hown)
  cases e.storeErr with
  | some err =>
    obtain ⟨hI', hG, -⟩ := hI.write (e := .failed i ref) (Moves.of_log t t.keys) hmay.2 rfl
    exact ⟨hI', hG, hnone _⟩
  | none =>
    have hm := Moves.of_log (e := .keyed i ref e.uuid) t
      (⟨e.uuid, userID, "arc-sync device auth", profileID⟩ :: t.keys)
    obtain ⟨hI', hG, hown'⟩ := hI.write (i := i) hm hmay rfl
    rw [hR.own, hown] at hown'
    exact ⟨hI', hG, hsome _ _ hR.heap hown'⟩

theorem approve_sound {rawKey key : String} (hown : s.own i = [.keyed i ref key, .passed i ref])
    (href : ref < s.heap.length) (hcode : tools.deviceCode ref = deviceCode)
    (hk : ∀ t, Sound tools i Q (k ()) t) :
    Sound tools i Q (approve i deviceCode rawKey >>= k) s := by
  refine safe_act_bind.mpr fun t hR hI e => ?_
  cases hl : t.lookup deviceCode with
  | none => exact ⟨hI, Guar.refl i t, hk t⟩
  | some ref' => ?_
  obtain ⟨-, hlt, hcode'⟩ := hI.lookup hl
  -- codes do not repeat: the map leads to the request that was found pending
  obtain rfl := tools.deviceCode_injective (hcode'.trans hcode.symm)
  have hm : Moves (.approved i ref') t _ := Moves.of_modify (s := t)
    (f := fun r => { r with status := .approved, apiKey := rawKey }) hlt (fun _ => rfl)
    (fun _ => nofun) fun _ _ => ⟨i, rfl⟩
  have hkeyed : .keyed i ref' key ∈ t.log :=
    State.mem_log_of_own (hR.own.trans hown) mem_cons_self
  have hst : (({ t with
      heap := t.heap.modify ref' fun r => { r with status := .approved, apiKey := rawKey }
      log := .approved i ref' :: t.log } : State).request ref').status ≠ .pending := by
    rw [request_modify hlt, if_pos rfl]
    exact nofun
  obtain ⟨hI', hG, -⟩ := hI.write hm ⟨⟨key, hkeyed⟩, hst⟩ rfl
  exact ⟨hI', hG, hk _⟩

theorem post_sound {action : String} (hown : s.own i = []) :
    Sound tools i (fun _ _ => True) (handleDeviceAuthPagePost i userID deviceCode action) s := by
  unfold handleDeviceAuthPagePost
  split
  · exact safe_true
  refine get_sound (fun t => safe_true) fun t ref hR hlt hcode => ?_
  refine isPending_sound (hR.own.trans hown) (fun t1 hle hown1 => ?_) fun t1 => safe_true
  rw [if_pos rfl]
  split
  · exact deny_sound hown1 fun t2 => safe_true
  refine safe_observe_bind (Guar.refl i) fun t2 hR2 _ e => ?_
  refine createAPIKey_sound (hR2.own.trans hown1) (fun t3 => safe_true) ?_
  intro t3 key hle3 hown3
  have hlt3 : ref < t3.heap.length := by
    have := hR2.heap
    omega
  refine approve_sound hown3 hlt3 hcode fun t4 => ?_
  refine safe_observe_bind (Guar.refl i) fun t5 _ _ e => ?_
  cases e.nonce with
  | error _ | ok _ => exact safe_true

def Found (i ref : ℕ) (e : Entry) : Prop := e = .waited i ref ∨ e = .taken i ref

theorem consume_sound {k : Option ℕ → Run α} (hown : s.own i = [])
    (hnone : ∀ t, Sound tools i Q (k none) t)
    (hsome : ∀ t ref e, Found i ref e → t.own i = [e] → Sound tools i Q (k (some ref)) t) :
    Sound tools i Q (consume i deviceCode >>= k) s := by
  refine safe_act_bind.mpr fun t hR hI e => ?_
  cases hl : t.lookup deviceCode with
  | none => exact ⟨hI, Guar.refl i t, hnone t⟩
  | some ref => ?_
  obtain ⟨hmem, hlt, hcode⟩ := hI.lookup hl
  dsimp only
  split
  · exact ⟨hI, Guar.refl i t, hnone t⟩
  split
  · next hpending =>
    -- a pending request stays in the map, and the poll keeps its pointer
    have hm := Moves.of_log (e := .waited i ref) t t.keys
    obtain ⟨hI', hG, hown'⟩ := hI.write (i := i) hm hpending rfl
    rw [hR.own, hown] at hown'
    exact ⟨hI', hG, hsome _ ref _ (.inl rfl) hown'⟩
  have hm : Moves (.taken i ref) t
      { t with
        requests := t.requests.filter fun ref => (t.request ref).deviceCode ≠ deviceCode
        log := .taken i ref :: t.log } :=
    ⟨rfl, fun _ => rfl, fun _ h => h, fun _ h => .inl h, fun _ h => mem_of_mem_filter h, rfl⟩
  -- no other request has this code, so the request is out of the map
  have hgone : ref ∉ t.requests.filter fun ref => (t.request ref).deviceCode ≠ deviceCode := by
    intro h
    have hne := (mem_filter.mp h).2
    rw [decide_eq_true_iff, hI.codes ref hlt] at hne
    exact hne hcode
  obtain ⟨hI', hG, hown'⟩ := hI.write (i := i) hm ⟨hmem, hgone⟩ rfl
  rw [hR.own, hown] at hown'
  exact ⟨hI', hG, hsome _ ref _ (.inr rfl) hown'⟩

theorem readStatus_sound {k : Status → Run α} (hfound : Found i ref e) (hown : s.own i = [e])
    (hk : ∀ t status, t.own i = [.saw i ref status, e] → Sound tools i Q (k status) t) :
    Sound tools i Q (readStatus i ref >>= k) s := by
  refine safe_act_bind.mpr fun t hR hI _ => ?_
  have hown1 := hR.own.trans hown
  have hmem : e ∈ t.log := State.mem_log_of_own hown1 mem_cons_self
  -- a poll reads the status once
  have hfirst : ∀ status, .saw i ref status ∉ t.log := by
    intro status hsaw
    have hin : saw i ref status ∈ t.own i := State.mem_own.mpr ⟨hsaw, rfl⟩
    rw [hown1, mem_singleton] at hin
    rcases hfound with rfl | rfl <;> exact Entry.noConfusion hin
  have hm := Moves.of_log (e := .saw i ref (t.request ref).status) t t.keys
  have hadm : Admissible t { t with log := .saw i ref (t.request ref).status :: t.log }
      (.saw i ref (t.request ref).status) := by
    refine ⟨rfl, hfirst, ?_⟩
    rcases hfound with rfl | rfl
    · exact .inl hmem
    · exact .inr hmem
  obtain ⟨hI', hG, hown'⟩ := hI.write (i := i) hm hadm rfl
  rw [hown1] at hown'
  exact ⟨hI', hG, hk _ _ hown'⟩

theorem deliver_sound {k : String → Run α} (hfound : Found i ref e)
    (hown : s.own i = [.saw i ref .approved, e]) (hk : ∀ t key, Sound tools i Q (k key) t) :
    Sound tools i Q (deliver i ref >>= k) s := by
  refine safe_act_bind.mpr fun t hR hI _ => ?_
  have hown1 := hR.own.trans hown
  have hsaw : .saw i ref .approved ∈ t.log := State.mem_log_of_own hown1 mem_cons_self
  have hfirst : ∀ key, .delivered i ref key ∉ t.log := by
    intro key hdel
    have hin : delivered i ref key ∈ t.own i := State.mem_own.mpr ⟨hdel, rfl⟩
    rw [hown1] at hin
    rcases hfound with rfl | rfl <;> simp at hin
  obtain ⟨hI', hG, -⟩ := hI.write (i := i)
    (Moves.of_log (e := .delivered i ref (t.request ref).apiKey) t t.keys) ⟨hsaw, hfirst⟩ rfl
  exact ⟨hI', hG, hk _ _⟩

theorem poll_sound (hown : s.own i = []) :
    Sound tools i (fun _ _ => True) (handleDeviceAuthToken i deviceCode) s := by
  unfold handleDeviceAuthToken
  split
  · exact safe_true
  refine consume_sound hown (fun t => safe_true) fun t ref e hfound hown1 => ?_
  refine readStatus_sound hfound hown1 fun t1 status hown2 => ?_
  cases status with
  | approved => exact deliver_sound hfound hown2 fun t2 key => safe_true
  | denied | pending => exact safe_true

theorem run_sound (r : Request) (hown : s.own i = []) :
    Sound tools i (fun _ _ => True) (r.run tools i) s := by
  cases r with
  | start => exact start_sound
  | post userID deviceCode action => exact post_sound hown
  | poll deviceCode => exact poll_sound hown

/-! ### Whole runs -/

theorem world_inv (ev : Cleanup) (s : State) (h : Inv tools s) :
    Inv tools (world ev s) ∧ ∀ i, Rely i s (world ev s) :=
  ⟨h.shrink fun _ hm => mem_of_mem_filter hm, fun _ => ⟨rfl, Nat.le_refl _⟩⟩

theorem inv_start (tools : Tools) : Inv tools {} where
  codes := nofun
  mapped := nofun
  status := nofun
  keyed := nofun
  denied := nofun
  approved := nofun
  decided := nofun
  taken := nofun
  takenOnce := nofun
  saw := nofun
  delivered := nofun
  waited := nofun
  sawTaken := nofun
  oneShot := fun _ => trivial

/-- **The invariant holds along every run.** -/
theorem requests_inv (tools : Tools) (reqs : List Request) (sched : List (Event Cleanup Env)) :
    Inv tools ((requests tools reqs).exec world sched).state := by
  have hsafe : (requests tools reqs).AllSafe (Inv tools) Rely Guar (fun _ _ _ => True) :=
    Pool.allSafe_mapIdx (inv_start tools) fun _ r _ => run_sound r rfl
  exact (Pool.exec_safe Rely.refl (fun _ _ _ _ => Rely.trans) (fun i j hij _ _ _ h => h j hij)
    world_inv hsafe sched).inv

/-- **In a run that is separate, authorization is one-shot**: for every device code one key at
most is created, one poll at most gets it, and none does once a denial was processed. -/
theorem authorization_one_shot (tools : Tools) (reqs : List Request)
    (sched : List (Event Cleanup Env))
    (hsep : Separate ((requests tools reqs).exec world sched).state.log) :
    OneShot ((requests tools reqs).exec world sched).state.log :=
  (requests_inv tools reqs sched).oneShot hsep

def plainTools : Tools where
  baseURL := "https://relay"
  deviceCode n := String.ofList (List.replicate (n + 1) 'd')
  deviceCode_injective := by
    intro m n h
    have hlen := congrArg List.length (String.ofList_injective h)
    rw [length_replicate, length_replicate] at hlen
    exact Nat.succ.inj hlen

def steps (n i : ℕ) (key : String) : List (Event Cleanup Env) :=
  List.replicate n (.run i { uuid := key, userCode := .ok "ABCD-2345", nonce := .ok "nonce" })

def started (reqs : List Request) (sched : List (Event Cleanup Env)) : Pool State Env Outcome :=
  (requests plainTools (.start :: reqs)).exec world (steps 1 0 "" ++ sched)

def inOrder : Pool State Env Outcome :=
  started [.poll "d", .post "alice" "d" "approve", .poll "d"]
    (steps 2 1 "" ++ steps 6 2 "key" ++ steps 3 3 "")

theorem authorization_one_shot_approval :
    inOrder.result 3 = some (.apiKey "key") ∧ Separate inOrder.state.log ∧
      OneShot inOrder.state.log := by
  have hlog : inOrder.state.log = [.delivered 3 0 "key", .saw 3 0 .approved, .taken 3 0,
      .approved 2 0, .keyed 2 0 "key", .passed 2 0, .saw 1 0 .pending, .waited 1 0] := by
    decide +kernel
  have hsep : Separate inOrder.state.log := by
    rw [hlog]
    simp [Separate]
  have hkey : inOrder.result 3 = some (.apiKey "key") := by decide +kernel
  exact ⟨hkey, hsep, authorization_one_shot plainTools
    [.start, .poll "d", .post "alice" "d" "approve", .poll "d"]
    (steps 1 0 "" ++ (steps 2 1 "" ++ steps 6 2 "key" ++ steps 3 3 "")) hsep⟩

def twoBrowsers : Pool State Env Outcome :=
  started [.post "alice" "d" "approve", .post "bob" "d" "approve"]
    (steps 2 1 "" ++ steps 2 2 "" ++ steps 4 1 "key" ++ steps 4 2 "other")

def earlyPoll : Pool State Env Outcome :=
  started [.poll "d", .post "alice" "d" "approve", .poll "d"]
    (steps 1 1 "" ++ steps 6 2 "key" ++ steps 3 3 "" ++ steps 2 1 "")

def overruledDenial : Pool State Env Outcome :=
  started [.post "alice" "d" "approve", .post "alice" "d" "deny", .poll "d"]
    (steps 2 1 "" ++ steps 3 2 "" ++ steps 4 1 "key" ++ steps 3 3 "")

/-- Two keys are created for one code; two polls get the same key; and a poll gets a key
after the denial. -/
theorem authorization_not_one_shot :
    (twoBrowsers.state.keys.map DeviceKey.rawKey = ["other", "key"] ∧
      ¬ OneShot twoBrowsers.state.log) ∧
    (earlyPoll.result 1 = some (.apiKey "key") ∧ earlyPoll.result 3 = some (.apiKey "key") ∧
      ¬ OneShot earlyPoll.state.log) ∧
    (overruledDenial.result 2 = some .denied ∧ overruledDenial.result 3 = some (.apiKey "key") ∧
      ¬ OneShot overruledDenial.state.log) := by
  have hkeys : twoBrowsers.state.log = [.approved 2 0, .keyed 2 0 "other", .approved 1 0,
      .keyed 1 0 "key", .passed 2 0, .passed 1 0] := by decide +kernel
  have hpolls : earlyPoll.state.log = [.delivered 1 0 "key", .saw 1 0 .approved,
      .delivered 3 0 "key", .saw 3 0 .approved, .taken 3 0, .approved 2 0, .keyed 2 0 "key",
      .passed 2 0, .waited 1 0] := by decide +kernel
  have hdenied : overruledDenial.state.log = [.delivered 3 0 "key", .saw 3 0 .approved, .taken 3 0,
      .approved 1 0, .keyed 1 0 "key", .denied 2 0, .passed 2 0, .passed 1 0] := by
    decide +kernel
  refine ⟨⟨by decide +kernel, ?_⟩, ⟨by decide +kernel, by decide +kernel, ?_⟩,
    by decide +kernel, by decide +kernel, ?_⟩
  · rw [hkeys]
    simp [OneShot]
  · rw [hpolls]
    simp [OneShot]
  · rw [hdenied]
    simp [OneShot]

end ArcRelay.Device
