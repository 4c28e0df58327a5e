import Mathlib.Data.List.Dedup
import Mathlib.Data.List.Induction
import Mathlib.Data.List.MinMax
import Mathlib.Data.List.Sort
import Mathlib.Data.Prod.Lex
import Mathlib.Data.String.Basic
import Mathlib.Logic.Function.Basic
import Mathlib.Order.BooleanAlgebra.Basic

/-!
# The configurations of the middleware

A row of `middleware_configs` configures a middleware for one server, or, without a server, for
all of them.  `GetForServer` (`internal/store/middleware.go`) merges the two kinds, and
`BuildPipeline` (`internal/middleware/middleware.go`) makes a pipeline of the result.  The rows are
merged in maps, and a `range` over a map visits its names in an order that nobody knows: the
orders are part of a run here.

* `getForServer`, `Run`: the merge, and a run of it.
* `Settled`: no order of a map matters.
* `getForServer_effective`, `buildPipeline_determined_iff`: what is returned, and when it is
  determined.
-/

namespace ArcRelay.Configs

open List

/-- A row, without its times.  One without a server is the default for all of them. -/
structure MiddlewareConfig where
  id : String
  serverID : Option String
  middleware : String
  enabled : Bool
  config : String
  priority : ℤ
  deriving DecidableEq

abbrev Rows := List MiddlewareConfig

/-! ### What the store returns -/

/-- A `map[string]*MiddlewareConfig`. -/
abbrev Map := String → Option MiddlewareConfig

/-- `for name, v := range m` with a body that sets `acc[name]`. -/
def range (order : List String) (m : Map)
    (body : String → MiddlewareConfig → Option MiddlewareConfig → Option MiddlewareConfig)
    (acc : Map) : Map :=
  order.foldl
    (fun acc name =>
      match m name with
      | some v => Function.update acc name (body name v (acc name))
      | none => acc)
    acc

/-- Of several rows for a name the last one counts. -/
def collect (P : MiddlewareConfig → Bool) (rows : Rows) : Map :=
  rows.foldl (fun m r => if P r then Function.update m r.middleware (some r) else m) fun _ => none

/-- A row of a server that is empty takes the configuration of the global one. -/
def inherit (sc : MiddlewareConfig) (gc : Option MiddlewareConfig) : MiddlewareConfig :=
  if sc.config = "\x7b\x7d" ∨ sc.config = "" then
    { sc with config := (gc.map MiddlewareConfig.config).getD sc.config }
  else sc

/-- The sorting loop: each entry moves left past those of higher priority.  Read from the right
this is an insertion sort. -/
def sortByPriority (l : Rows) : Rows :=
  (l.reverse.insertionSort fun a b => b.priority ≤ a.priority).reverse

/-- The orders in which the three maps are visited. -/
structure Orders where
  globals : List String
  servers : List String
  merged : List String

def mergedConfigs (o : Orders) (rows : Rows) : Map :=
  let globals := collect (fun r => r.serverID = none) rows
  let serverConfigs := collect (fun r => r.serverID.isSome) rows
  -- a disabled global row only lends its configuration
  let merged := range o.globals globals (fun _ gc old => if gc.enabled then some gc else old)
    fun _ => none
  range o.servers serverConfigs (fun name sc _ => some (inherit sc (globals name))) merged

/-- `GetForServer` behind its query. -/
def getForServer (o : Orders) (rows : Rows) : Rows :=
  sortByPriority (o.merged.filterMap (mergedConfigs o rows))

/-- What `BuildPipeline` makes of an entry: nothing if it is disabled, unknown or refused. -/
def made {μ : Type} (factories : String → Option (String → Option μ)) (mc : MiddlewareConfig) :
    Option μ :=
  if mc.enabled then (factories mc.middleware).bind fun factory => factory mc.config else none

def buildPipeline {μ : Type} (factories : String → Option (String → Option μ)) (configs : Rows) :
    List μ :=
  configs.filterMap (made factories)

/-! ### What it stands for -/

def isGlobal (name : String) (r : MiddlewareConfig) : Bool :=
  r.serverID = none ∧ r.middleware = name

def isServer (serverID name : String) (r : MiddlewareConfig) : Bool :=
  r.serverID = some serverID ∧ r.middleware = name

/-- The entry of a middleware, if `gc` is its global row: the row of the server, with the
configuration of the global row in place of an empty one, or else the global row if enabled. -/
def entry (serverID : String) (rows : Rows) (name : String) (gc : Option MiddlewareConfig) :
    Option MiddlewareConfig :=
  match rows.find? (isServer serverID name) with
  | none => gc.filter MiddlewareConfig.enabled
  | some sc =>
    match gc with
    | none => some sc
    | some gc =>
      some { sc with config := if sc.config ∈ ["", "\x7b\x7d"] then gc.config else sc.config }

def effective (serverID : String) (rows : Rows) (name : String) : Option MiddlewareConfig :=
  entry serverID rows name (rows.find? (isGlobal name))

def OneEach (serverID : String) (rows : Rows) : Prop :=
  ∀ name, rows.countP (isGlobal name) ≤ 1 ∧ rows.countP (isServer serverID name) ≤ 1

/-- The global row of a name that the query may give last: one of the highest priority. -/
def LastGlobal (rows : Rows) (name : String) : Option MiddlewareConfig → Prop
  | none => rows.filter (isGlobal name) = []
  | some gc => gc ∈ rows.filter (isGlobal name) ∧
      ∀ r ∈ rows.filter (isGlobal name), r.priority ≤ gc.priority

/-- What stands in a pipeline for a name, and its priority. -/
def stage {μ : Type} (factories : String → Option (String → Option μ)) (mc : MiddlewareConfig) :
    Option (ℤ × μ) :=
  (made factories mc).map fun x => (mc.priority, x)

/-- Neither the choice between global rows of one name nor the order of two names matters. -/
structure Settled {μ : Type} (factories : String → Option (String → Option μ)) (serverID : String)
    (rows : Rows) : Prop where
  globals : ∀ name gc gc', LastGlobal rows name gc → LastGlobal rows name gc' →
    (entry serverID rows name gc).bind (made factories) =
      (entry serverID rows name gc').bind (made factories)
  names : ∀ a b gc gc' mc mc' x y, a ≠ b → LastGlobal rows a gc → LastGlobal rows b gc' →
    entry serverID rows a gc = some mc → entry serverID rows b gc' = some mc' →
    mc.priority = mc'.priority → made factories mc = some x → made factories mc' = some y → x = y

/-- What a run of `GetForServer` on the stored rows meets: the rows of the query, by priority and
name, and for each map the names that are in it, once each. -/
structure Run (serverID : String) (stored : Rows) (o : Orders) (rows : Rows) : Prop where
  query : rows.Perm (stored.filter fun r => r.serverID = none ∨ r.serverID = some serverID)
  sorted : rows.Pairwise fun a b =>
    a.priority < b.priority ∨ a.priority = b.priority ∧ a.middleware ≤ b.middleware
  nodup : o.globals.Nodup ∧ o.servers.Nodup ∧ o.merged.Nodup
  names : ∀ r ∈ rows, r.middleware ∈ o.globals ∧ r.middleware ∈ o.servers ∧ r.middleware ∈ o.merged

variable {serverID name : String} {stored rows : Rows} {o : Orders} {mc : MiddlewareConfig}

/-! ### Loops -/

theorem range_apply {order : List String} {m acc : Map}
    {body : String → MiddlewareConfig → Option MiddlewareConfig → Option MiddlewareConfig}
    (hnodup : order.Nodup) (hname : ∀ v, m name = some v → name ∈ order) :
    range order m body acc name = (m name).elim (acc name) fun v => body name v (acc name) := by
  have hvisit : range order m body acc name =
      if name ∈ order then (m name).elim (acc name) fun v => body name v (acc name)
      else acc name := by
    clear hname
    induction order generalizing acc with
    | nil => rfl
    | cons first order ih => ?_
    obtain ⟨hfirst, hnodup⟩ := nodup_cons.mp hnodup
    rw [range, foldl_cons, ← range, ih hnodup]
    by_cases hname : name = first
    · -- the name is not visited again
      subst hname
      cases m name <;> simp [hfirst]
    · cases m first <;> simp [hname]
  rw [hvisit]
  cases hm : m name with
  | none => simp
  | some v => rw [if_pos (hname v hm)]

theorem collect_apply (P : MiddlewareConfig → Bool) (rows : Rows) :
    collect P rows name = (rows.filter fun r => P r ∧ r.middleware = name).getLast? := by
  induction rows using List.reverseRecOn with
  | nil => rfl
  | append_singleton rows r ih => ?_
  rw [collect, foldl_append, ← collect, filter_append]
  by_cases hP : P r = true
  · by_cases hname : name = r.middleware
    · simp [hP, hname]
    · simp [hP, hname, Ne.symm hname, ih]
  · simp [hP, ih]

theorem of_collect {P : MiddlewareConfig → Bool} (h : collect P rows name = some mc) :
    mc ∈ rows ∧ mc.middleware = name := by
  rw [collect_apply] at h
  obtain ⟨hmem, hP⟩ := mem_filter.mp (mem_of_getLast? h)
  exact ⟨hmem, (of_decide_eq_true hP).2⟩

theorem pairwise_sortByPriority (l : Rows) :
    (sortByPriority l).Pairwise fun a b => a.priority ≤ b.priority := by
  have : Std.Total fun a b : MiddlewareConfig => b.priority ≤ a.priority :=
    ⟨fun a b => le_total b.priority a.priority⟩
  have : IsTrans MiddlewareConfig fun a b => b.priority ≤ a.priority :=
    ⟨fun _ _ _ hab hbc => hbc.trans hab⟩
  exact pairwise_reverse.mpr (pairwise_insertionSort _ _)

theorem perm_sortByPriority (l : Rows) : (sortByPriority l).Perm l :=
  (reverse_perm _).trans ((perm_insertionSort _ _).trans (reverse_perm _))

/-! ### Runs -/

theorem inherit_none (sc : MiddlewareConfig) : inherit sc none = sc := by
  unfold inherit
  split <;> rfl

theorem inherit_some (sc gc : MiddlewareConfig) : inherit sc (some gc) =
    { sc with config := if sc.config ∈ ["", "\x7b\x7d"] then gc.config else sc.config } := by
  have hempty : sc.config ∈ ["", "\x7b\x7d"] ↔ sc.config = "\x7b\x7d" ∨ sc.config = "" := by
    simp [or_comm]
  unfold inherit
  split
  · next h => rw [if_pos (hempty.mpr h), Option.map_some, Option.getD_some]
  · next h => rw [if_neg (mt hempty.mp h)]

theorem entry_of_server {sc : MiddlewareConfig} {gc : Option MiddlewareConfig}
    (hsc : rows.find? (isServer serverID name) = some sc)
    (h : entry serverID rows name gc = some mc) :
    mc.middleware = name ∧ mc.priority = sc.priority := by
  have hrow := find?_some hsc
  have hname := (of_decide_eq_true hrow).2
  rw [entry, hsc] at h
  cases gc with
  | none =>
    cases h
    exact ⟨hname, rfl⟩
  | some gc =>
    cases h
    exact ⟨hname, rfl⟩

theorem middleware_of_effective (h : effective serverID stored name = some mc) :
    mc.middleware = name ∧
      ∃ r ∈ stored, r.middleware = name ∧ (r.serverID = none ∨ r.serverID = some serverID) := by
  rw [effective] at h
  cases hsc : stored.find? (isServer serverID name) with
  | some sc =>
    have hrow := find?_some hsc
    obtain ⟨hserver, hname⟩ := of_decide_eq_true hrow
    exact ⟨(entry_of_server hsc h).1, sc, mem_of_find?_eq_some hsc, hname, .inr hserver⟩
  | none =>
    simp only [entry, hsc] at h
    obtain ⟨hgc, -⟩ := Option.filter_eq_some_iff.mp h
    have hrow := find?_some hgc
    obtain ⟨hglobal, hname⟩ := of_decide_eq_true hrow
    exact ⟨hname, mc, mem_of_find?_eq_some hgc, hname, .inl hglobal⟩

theorem LastGlobal.eq_find {gc : Option MiddlewareConfig} (h : LastGlobal rows name gc)
    (hone : rows.countP (isGlobal name) ≤ 1) : gc = rows.find? (isGlobal name) := by
  rw [← head?_filter]
  rw [countP_eq_length_filter] at hone
  match hfilter : rows.filter (isGlobal name), gc with
  | [], none => rfl
  | [], some gc => simp [LastGlobal, hfilter] at h
  | [r], none => simp [LastGlobal, hfilter] at h
  | [r], some gc => simpa [LastGlobal, hfilter] using h.1
  | _ :: _ :: _, _ => simp [hfilter] at hone

namespace Run

variable (h : Run serverID stored o rows)

include h

theorem filter_perm {P : MiddlewareConfig → Bool}
    (hP : ∀ r, P r = true → r.serverID = none ∨ r.serverID = some serverID) :
    (rows.filter P).Perm (stored.filter P) := by
  refine (h.query.filter P).trans (.of_eq ?_)
  rw [filter_filter]
  refine filter_congr fun r _ => ?_
  cases hr : P r with
  | false => rfl
  | true => simpa using hP r hr

theorem last_filter {P : MiddlewareConfig → Bool}
    (hP : ∀ r, P r = true → r.serverID = none ∨ r.serverID = some serverID)
    (hone : stored.countP P ≤ 1) : (rows.filter P).getLast? = stored.find? P := by
  have hperm := h.filter_perm hP
  rw [← head?_filter]
  rw [countP_eq_length_filter] at hone
  match hfilter : stored.filter P with
  | [] =>
    rw [hfilter] at hperm
    rw [hperm.eq_nil]
    rfl
  | [r] =>
    rw [hfilter] at hperm
    rw [perm_singleton.mp hperm]
    rfl
  | _ :: _ :: _ => simp [hfilter] at hone

theorem lastGlobal : LastGlobal stored name (rows.filter (isGlobal name)).getLast? := by
  have hperm := h.filter_perm (P := isGlobal name) fun r hr => .inl (of_decide_eq_true hr).1
  cases hlast : (rows.filter (isGlobal name)).getLast? with
  | none =>
    rw [getLast?_eq_none_iff.mp hlast] at hperm
    exact hperm.symm.eq_nil
  | some gc =>
    refine ⟨hperm.mem_iff.mp (mem_of_getLast? hlast), fun r hr => ?_⟩
    obtain ⟨before, hbefore⟩ := getLast?_eq_some_iff.mp hlast
    have hsorted := h.sorted.filter (isGlobal name)
    rw [hbefore] at hsorted
    have hmem := hperm.mem_iff.mpr hr
    rw [hbefore, mem_append, mem_singleton] at hmem
    rcases hmem with hr | rfl
    · rcases (pairwise_append.mp hsorted).2.2 r hr gc mem_cons_self with hlt | heq
      · exact hlt.le
      · exact heq.1.le
    · exact le_rfl

/-- Each name gets the entry of its last global row. -/
theorem merged_entry (hserver : stored.countP (isServer serverID name) ≤ 1) :
    mergedConfigs o rows name =
      entry serverID stored name (rows.filter (isGlobal name)).getLast? := by
  have hglobal : collect (fun r => r.serverID = none) rows name =
      (rows.filter (isGlobal name)).getLast? := by
    rw [collect_apply]
    congr 1
    exact filter_congr fun r _ => by simp [isGlobal]
  have hsc : collect (fun r => r.serverID.isSome) rows name =
      stored.find? (isServer serverID name) := by
    rw [collect_apply, ← h.last_filter (fun r hr => .inr (of_decide_eq_true hr).1) hserver]
    congr 1
    refine filter_congr fun r hr => ?_
    have hquery := (mem_filter.mp (h.query.mem_iff.mp hr)).2
    rcases of_decide_eq_true hquery with hnone | hsome
    · simp [isServer, hnone]
    · simp [isServer, hsome]
  rw [mergedConfigs, range_apply h.nodup.2.1, range_apply h.nodup.1, hsc, entry]
  · rw [hglobal]
    cases stored.find? (isServer serverID name) with
    | none => cases (rows.filter (isGlobal name)).getLast? <;> rfl
    | some sc => ?_
    cases (rows.filter (isGlobal name)).getLast? with
    | none => exact congrArg some (inherit_none sc)
    | some gc => exact congrArg some (inherit_some sc gc)
  · intro v hv
    obtain ⟨hmem, hname⟩ := of_collect hv
    exact hname ▸ (h.names v hmem).1
  · intro v hv
    obtain ⟨hmem, hname⟩ := of_collect hv
    exact hname ▸ (h.names v hmem).2.1

theorem merged_eq (hone : OneEach serverID stored) :
    mergedConfigs o rows name = effective serverID stored name := by
  rw [h.merged_entry (hone name).2, h.lastGlobal.eq_find (hone name).1, effective]

theorem mem_getForServer (hone : OneEach serverID stored) :
    mc ∈ getForServer o rows ↔ effective serverID stored mc.middleware = some mc := by
  rw [getForServer, (perm_sortByPriority _).mem_iff, mem_filterMap]
  constructor
  · rintro ⟨name, -, hmc⟩
    rw [h.merged_eq hone] at hmc
    rwa [(middleware_of_effective hmc).1]
  intro hmc
  obtain ⟨-, r, hr, hname, hserver⟩ := middleware_of_effective hmc
  have hmem : r ∈ rows := h.query.mem_iff.mpr (mem_filter.mpr ⟨hr, by simpa using hserver⟩)
  exact ⟨_, hname ▸ (h.names r hmem).2.2, (h.merged_eq hone).trans hmc⟩

theorem nodup_getForServer (hone : OneEach serverID stored) :
    ((getForServer o rows).map MiddlewareConfig.middleware).Nodup := by
  rw [getForServer, ((perm_sortByPriority _).map _).nodup_iff, map_filterMap]
  refine h.nodup.2.2.filterMap fun a b name ha hb => ?_
  have hkey : ∀ c, name ∈ (mergedConfigs o rows c).map MiddlewareConfig.middleware → c = name := by
    intro c hc
    obtain ⟨mc, hmc, rfl⟩ := Option.map_eq_some_iff.mp hc
    rw [h.merged_eq hone] at hmc
    exact (middleware_of_effective hmc).1.symm
  rw [hkey a ha, hkey b hb]

end Run

/-- **The store returns the effective configurations**: one for each middleware that has one, by
priority. -/
theorem getForServer_effective (serverID : String) (stored : Rows) (hone : OneEach serverID stored)
    (o : Orders) (rows : Rows) (h : Run serverID stored o rows) :
    (∀ mc, mc ∈ getForServer o rows ↔ effective serverID stored mc.middleware = some mc) ∧
      ((getForServer o rows).map MiddlewareConfig.middleware).Nodup ∧
      (getForServer o rows).Pairwise fun a b => a.priority ≤ b.priority :=
  ⟨fun _ => h.mem_getForServer hone, h.nodup_getForServer hone, pairwise_sortByPriority _⟩

/-! ### Pipelines -/

section

variable {μ : Type} {factories : String → Option (String → Option μ)}

theorem buildPipeline_eq (l : Rows) :
    buildPipeline factories l = (l.filterMap (stage factories)).map Prod.snd := by
  rw [buildPipeline, map_filterMap]
  congr 1
  funext mc
  cases hmade : made factories mc <;> simp [stage, hmade]

theorem priority_entry {gc gc' : Option MiddlewareConfig} {mc' : MiddlewareConfig}
    (hgc : LastGlobal rows name gc) (hgc' : LastGlobal rows name gc')
    (h : entry serverID rows name gc = some mc) (h' : entry serverID rows name gc' = some mc') :
    mc.priority = mc'.priority := by
  cases hsc : rows.find? (isServer serverID name) with
  | some sc => rw [(entry_of_server hsc h).2, (entry_of_server hsc h').2]
  | none =>
    simp only [entry, hsc] at h h'
    rw [(Option.filter_eq_some_iff.mp h).1] at hgc
    rw [(Option.filter_eq_some_iff.mp h').1] at hgc'
    exact le_antisymm (hgc'.2 mc hgc.1) (hgc.2 mc' hgc'.1)

theorem Settled.stage_eq {gc gc' : Option MiddlewareConfig} (h : Settled factories serverID rows)
    (hgc : LastGlobal rows name gc) (hgc' : LastGlobal rows name gc') :
    (entry serverID rows name gc).bind (stage factories) =
      (entry serverID rows name gc').bind (stage factories) := by
  have hmade := h.globals name gc gc' hgc hgc'
  cases he : entry serverID rows name gc with
  | none => cases he' : entry serverID rows name gc' <;> simp_all [stage]
  | some mc => ?_
  cases he' : entry serverID rows name gc' with
  | none => simp_all [stage]
  | some mc' =>
    rw [he, he', Option.bind_some, Option.bind_some] at hmade
    simp [stage, hmade, priority_entry hgc hgc' he he']

/-- The names that add something decide what is visited, up to the order. -/
theorem perm_filterMap {α : Type} {f : String → Option α} {l l' : List String} (hl : l.Nodup)
    (hl' : l'.Nodup) (h : ∀ a, f a ≠ none → a ∈ l ∧ a ∈ l') : l.filterMap f ~ l'.filterMap f := by
  have hfilter : ∀ l : List String,
      l.filterMap f = (l.filter fun a => (f a).isSome).filterMap f := by
    intro l
    rw [filterMap_filter]
    congr 1
    funext a
    cases f a <;> rfl
  rw [hfilter l, hfilter l']
  refine Perm.filterMap f ((perm_ext_iff_of_nodup (hl.filter _) (hl'.filter _)).mpr fun a => ?_)
  simp only [mem_filter, Option.isSome_iff_ne_none, and_congr_left_iff]
  exact fun ha => iff_of_true (h a ha).1 (h a ha).2

theorem Run.stages_perm (h : Run serverID stored o rows)
    (hserver : ∀ name, stored.countP (isServer serverID name) ≤ 1) :
    (getForServer o rows).filterMap (stage factories) ~ o.merged.filterMap fun name =>
      (entry serverID stored name (rows.filter (isGlobal name)).getLast?).bind
        (stage factories) := by
  refine ((perm_sortByPriority _).filterMap _).trans (.of_eq ?_)
  rw [filterMap_filterMap]
  congr 1
  funext name
  rw [h.merged_entry (hserver name)]

theorem Run.mem_merged (h : Run serverID stored o rows) {gc : Option MiddlewareConfig}
    (hgc : LastGlobal stored name gc) (he : entry serverID stored name gc ≠ none) :
    name ∈ o.merged := by
  have hrow : ∃ r ∈ stored, r.middleware = name ∧
      (r.serverID = none ∨ r.serverID = some serverID) := by
    cases hsc : stored.find? (isServer serverID name) with
    | some sc =>
      have hrow := find?_some hsc
      obtain ⟨hserver, hname⟩ := of_decide_eq_true hrow
      exact ⟨sc, mem_of_find?_eq_some hsc, hname, .inr hserver⟩
    | none =>
      cases gc with
      | none => simp [entry, hsc] at he
      | some gc =>
        obtain ⟨hmem, hglobal⟩ := mem_filter.mp hgc.1
        obtain ⟨hnone, hname⟩ := of_decide_eq_true hglobal
        exact ⟨gc, hmem, hname, .inl hnone⟩
  obtain ⟨r, hr, rfl, hquery⟩ := hrow
  exact (h.names r (h.query.mem_iff.mpr (mem_filter.mpr ⟨hr, by simpa using hquery⟩))).2.2

theorem Settled.buildPipeline_eq (hsettled : Settled factories serverID stored)
    (hserver : ∀ name, stored.countP (isServer serverID name) ≤ 1) {o' : Orders} {rows' : Rows}
    (h : Run serverID stored o rows) (h' : Run serverID stored o' rows') :
    buildPipeline factories (getForServer o rows) =
      buildPipeline factories (getForServer o' rows') := by
  rw [Configs.buildPipeline_eq, Configs.buildPipeline_eq]
  congr 1
  let f : String → Option (ℤ × μ) := fun name =>
    (entry serverID stored name (rows.filter (isGlobal name)).getLast?).bind (stage factories)
  have hf : ∀ name, (entry serverID stored name (rows'.filter (isGlobal name)).getLast?).bind
      (stage factories) = f name :=
    fun name => hsettled.stage_eq h'.lastGlobal h.lastGlobal
  have hperm : _ ~ o.merged.filterMap f := h.stages_perm hserver
  have hperm' : (getForServer o' rows').filterMap (stage factories) ~ o'.merged.filterMap f := by
    rw [← funext hf]
    exact h'.stages_perm hserver
  have hnames : o.merged.filterMap f ~ o'.merged.filterMap f := by
    refine perm_filterMap h.nodup.2.2 h'.nodup.2.2 fun name hname => ?_
    have he : entry serverID stored name (rows.filter (isGlobal name)).getLast? ≠ none := by
      intro he
      exact hname (by rw [show f name = Option.bind _ _ from rfl, he, Option.bind_none])
    exact ⟨h.mem_merged h.lastGlobal he, h'.mem_merged h.lastGlobal he⟩
  have hsorted : ∀ l : Rows, ((sortByPriority l).filterMap (stage factories)).Pairwise
      fun a b => a.1 ≤ b.1 := by
    refine fun l => (pairwise_sortByPriority l).filterMap _ fun mc mc' hle a ha b hb => ?_
    obtain ⟨x, -, rfl⟩ := Option.map_eq_some_iff.mp ha
    obtain ⟨y, -, rfl⟩ := Option.map_eq_some_iff.mp hb
    exact hle
  refine ((hperm.trans hnames).trans hperm'.symm).eq_of_pairwise (fun a b ha hb hab hba => ?_)
    (hsorted _) (hsorted _)
  -- two of one priority belong to one name, or are alike
  obtain ⟨n, -, hn⟩ := mem_filterMap.mp (hperm.mem_iff.mp ha)
  obtain ⟨n', -, hn'⟩ := mem_filterMap.mp (hperm'.mem_iff.mp hb)
  by_cases heq : n = n'
  · exact Option.some.inj (hn.symm.trans (heq ▸ hn'))
  obtain ⟨mc, hmc, hstage⟩ := Option.bind_eq_some_iff.mp hn
  obtain ⟨mc', hmc', hstage'⟩ := Option.bind_eq_some_iff.mp hn'
  obtain ⟨x, hx, rfl⟩ := Option.map_eq_some_iff.mp hstage
  obtain ⟨y, hy, rfl⟩ := Option.map_eq_some_iff.mp hstage'
  have hpriority : mc.priority = mc'.priority := le_antisymm hab hba
  rw [hpriority, hsettled.names n n' _ _ mc mc' x y heq h.lastGlobal h.lastGlobal hmc hmc'
    hpriority hx hy]

/-! ### Every choice is met by a run -/

/-- The order of the query, with the chosen global rows behind others of their priority. -/
def sortKey (choice : String → Option MiddlewareConfig) (r : MiddlewareConfig) :
    ℤ ×ₗ String ×ₗ Bool :=
  toLex (r.priority, toLex (r.middleware, decide (choice r.middleware = some r)))

def queryOf (choice : String → Option MiddlewareConfig) (serverID : String) (stored : Rows) :
    Rows :=
  (stored.filter fun r => r.serverID = none ∨ r.serverID = some serverID).mergeSort
    fun a b => sortKey choice a ≤ sortKey choice b

variable {choice : String → Option MiddlewareConfig}

theorem pairwise_queryOf : (queryOf choice serverID stored).Pairwise
    fun a b => sortKey choice a ≤ sortKey choice b := by
  refine Pairwise.imp (fun hle => of_decide_eq_true hle) (pairwise_mergeSort ?_ ?_ _)
  · exact fun a b c hab hbc =>
      decide_eq_true (le_trans (of_decide_eq_true hab) (of_decide_eq_true hbc))
  · exact fun a b => by simpa using le_total _ _

theorem run_queryOf {names : List String} (hnodup : names.Nodup)
    (hnames : ∀ r ∈ stored, r.middleware ∈ names) :
    Run serverID stored ⟨names, names, names⟩ (queryOf choice serverID stored) := by
  refine ⟨mergeSort_perm _ _, pairwise_queryOf.imp fun hab => ?_, ⟨hnodup, hnodup, hnodup⟩, ?_⟩
  · rcases Prod.Lex.toLex_le_toLex.mp hab with hlt | ⟨heq, hle⟩
    · exact .inl hlt
    rcases Prod.Lex.toLex_le_toLex.mp hle with hlt | ⟨hname, -⟩
    · exact .inr ⟨heq, hlt.le⟩
    · exact .inr ⟨heq, hname.le⟩
  · intro r hr
    have := hnames r (mem_filter.mp (mem_mergeSort.mp hr)).1
    exact ⟨this, this, this⟩

theorem last_queryOf (h : LastGlobal stored name (choice name)) :
    ((queryOf choice serverID stored).filter (isGlobal name)).getLast? = choice name := by
  have hrun : Run serverID stored _ (queryOf choice serverID stored) :=
    run_queryOf (nodup_dedup _) fun r hr => mem_dedup.mpr (mem_map_of_mem hr)
  have hperm : (queryOf choice serverID stored).filter (isGlobal name) ~
      stored.filter (isGlobal name) := hrun.filter_perm fun r hr => .inl (of_decide_eq_true hr).1
  have hsorted : ((queryOf choice serverID stored).filter (isGlobal name)).Pairwise
      fun a b => sortKey choice a ≤ sortKey choice b := pairwise_queryOf.filter _
  cases hchoice : choice name with
  | none =>
    rw [hchoice] at h
    rw [show stored.filter (isGlobal name) = [] from h] at hperm
    rw [hperm.eq_nil]
    rfl
  | some gc => ?_
  rw [hchoice] at h
  obtain ⟨hgc, hmax⟩ := h
  have hmem := hperm.mem_iff.mpr hgc
  obtain ⟨rest, last, hlast⟩ := (eq_nil_or_concat' _).resolve_left (ne_nil_of_mem hmem)
  rw [hlast, getLast?_concat]
  -- the chosen row has the highest key, and only it has
  by_contra hne
  have hrest : gc ∈ rest := by
    rw [hlast, mem_append, mem_singleton] at hmem
    exact hmem.resolve_right fun heq => hne (congrArg some heq.symm)
  rw [hlast] at hsorted
  have hle := (pairwise_append.mp hsorted).2.2 gc hrest last mem_cons_self
  have hlastMem := hperm.mem_iff.mp (hlast ▸ mem_append_right rest mem_cons_self)
  have hname := (of_decide_eq_true (mem_filter.mp hlastMem).2).2
  have hname' := (of_decide_eq_true (mem_filter.mp hgc).2).2
  rcases Prod.Lex.toLex_le_toLex.mp hle with hlt | ⟨-, hle⟩
  · exact absurd (hmax last hlastMem) (not_le.mpr hlt)
  rcases Prod.Lex.toLex_le_toLex.mp hle with hlt | ⟨-, hflag⟩
  · exact absurd (hname'.trans hname.symm) hlt.ne
  rw [hname, hname', hchoice, decide_eq_true rfl] at hflag
  exact hne (of_decide_eq_true (top_le_iff.mp hflag)).symm

theorem getForServer_queryOf {names : List String} (hnodup : names.Nodup)
    (hnames : ∀ r ∈ stored, r.middleware ∈ names)
    (hserver : ∀ name, stored.countP (isServer serverID name) ≤ 1)
    (hchoice : ∀ name, LastGlobal stored name (choice name)) :
    getForServer ⟨names, names, names⟩ (queryOf choice serverID stored) =
      sortByPriority (names.filterMap fun n => entry serverID stored n (choice n)) := by
  have hrun : Run serverID stored _ (queryOf choice serverID stored) := run_queryOf hnodup hnames
  rw [getForServer]
  congr 2
  funext n
  rw [hrun.merged_entry (hserver n), last_queryOf (hchoice n)]

theorem exists_names (stored : Rows) {first : List String} (h : first.Nodup) :
    ∃ rest, (first ++ rest).Nodup ∧ ∀ r ∈ stored, r.middleware ∈ first ++ rest := by
  refine ⟨(stored.map MiddlewareConfig.middleware).dedup.filter (· ∉ first),
    h.append ((nodup_dedup _).filter _) fun n hn hn' => ?_, fun r hr => ?_⟩
  · exact of_decide_eq_true (mem_filter.mp hn').2 hn
  by_cases hfirst : r.middleware ∈ first
  · exact mem_append_left _ hfirst
  · exact mem_append_right _
      (mem_filter.mpr ⟨mem_dedup.mpr (mem_map_of_mem hr), decide_eq_true hfirst⟩)

theorem exists_lastGlobal (rows : Rows) (name : String) : ∃ gc, LastGlobal rows name gc := by
  cases hmax : (rows.filter (isGlobal name)).argmax MiddlewareConfig.priority with
  | none => exact ⟨none, argmax_eq_none.mp hmax⟩
  | some gc => exact ⟨some gc, argmax_mem hmax, fun r hr => le_of_mem_argmax hr hmax⟩

theorem orderedInsert_swap {mc mc' : MiddlewareConfig} (h : mc.priority = mc'.priority)
    (r : MiddlewareConfig) (l l' : Rows) :
    ∃ l₁ l₂, (∀ x y, (x = mc ∧ y = mc' ∨ x = mc' ∧ y = mc) →
      orderedInsert (fun a b => b.priority ≤ a.priority) r (l ++ x :: y :: l') =
        l₁ ++ x :: y :: l₂) := by
  induction l with
  | nil =>
    by_cases hle : mc.priority ≤ r.priority
    · refine ⟨[r], l', ?_⟩
      rintro x y (⟨rfl, rfl⟩ | ⟨rfl, rfl⟩) <;> simp [← h, hle]
    · refine ⟨[], orderedInsert (fun a b => b.priority ≤ a.priority) r l', ?_⟩
      rintro x y (⟨rfl, rfl⟩ | ⟨rfl, rfl⟩) <;> simp [← h, hle]
  | cons a l ih =>
    by_cases hle : a.priority ≤ r.priority
    · exact ⟨r :: a :: l, l', fun x y _ => by simp [hle]⟩
    · obtain ⟨l₁, l₂, hswap⟩ := ih
      exact ⟨a :: l₁, l₂, fun x y hxy => by simp [hle, hswap x y hxy]⟩

/-- Two neighbours of one priority stay neighbours, in their order. -/
theorem sortByPriority_swap {mc mc' : MiddlewareConfig} (h : mc.priority = mc'.priority)
    (l : Rows) :
    ∃ l₁ l₂, ∀ x y, (x = mc ∧ y = mc' ∨ x = mc' ∧ y = mc) →
      sortByPriority (x :: y :: l) = l₁ ++ x :: y :: l₂ := by
  have hsort : ∀ l : Rows, ∃ l₁ l₂, ∀ x y, (x = mc ∧ y = mc' ∨ x = mc' ∧ y = mc) →
      (l ++ [y, x]).insertionSort (fun a b => b.priority ≤ a.priority) =
        l₁ ++ y :: x :: l₂ := by
    intro l
    induction l with
    | nil =>
      refine ⟨[], [], ?_⟩
      rintro x y (⟨rfl, rfl⟩ | ⟨rfl, rfl⟩) <;> simp [h]
    | cons r l ih =>
      obtain ⟨l₁, l₂, hl⟩ := ih
      obtain ⟨l₁', l₂', hinsert⟩ := orderedInsert_swap h r l₁ l₂
      refine ⟨l₁', l₂', fun x y hxy => ?_⟩
      rw [cons_append, insertionSort_cons, hl x y hxy]
      exact hinsert y x (hxy.symm.imp And.symm And.symm)
  obtain ⟨l₁, l₂, hl⟩ := hsort l.reverse
  refine ⟨l₂.reverse, l₁.reverse, fun x y hxy => ?_⟩
  rw [sortByPriority, reverse_cons, reverse_cons, append_assoc, cons_append, nil_append, hl x y hxy]
  simp

theorem lastGlobal_update {gc : Option MiddlewareConfig}
    (hchoice : ∀ n, LastGlobal stored n (choice n)) (hgc : LastGlobal stored name gc) (n : String) :
    LastGlobal stored n (Function.update choice name gc n) := by
  by_cases hn : n = name
  · subst hn
    rwa [Function.update_self]
  · rw [Function.update_of_ne hn]
    exact hchoice n

/-- What the last global row of one name contributes to a pipeline, and what is there beside it. -/
theorem buildPipeline_update_perm (factories : String → Option (String → Option μ))
    {names : List String} {gc : Option MiddlewareConfig}
    (hnodup : (name :: names).Nodup) (hnames : ∀ r ∈ stored, r.middleware ∈ name :: names)
    (hserver : ∀ name, stored.countP (isServer serverID name) ≤ 1)
    (hchoice : ∀ n, LastGlobal stored n (choice n)) (hgc : LastGlobal stored name gc) :
    buildPipeline factories (getForServer ⟨name :: names, name :: names, name :: names⟩
      (queryOf (Function.update choice name gc) serverID stored)) ~
      ((entry serverID stored name gc).bind (made factories)).toList ++
        (names.filterMap fun n => entry serverID stored n (choice n)).filterMap
          (made factories) := by
  rw [getForServer_queryOf hnodup hnames hserver (lastGlobal_update hchoice hgc), buildPipeline]
  refine ((perm_sortByPriority _).filterMap _).trans (.of_eq ?_)
  have hrest : (names.filterMap fun n => entry serverID stored n
      (Function.update choice name gc n)) =
        names.filterMap fun n => entry serverID stored n (choice n) := by
    refine filterMap_congr fun n hn => ?_
    have hne : n ≠ name := ne_of_mem_of_not_mem hn (nodup_cons.mp hnodup).1
    rw [Function.update_of_ne hne]
  rw [filterMap_cons, Function.update_self, hrest]
  cases entry serverID stored name gc with
  | none => rfl
  | some mc => cases hmade : made factories mc <;> simp [hmade]

/-- **Any two runs build one pipeline if and only if neither the choice between global rows of one
name nor the order of two names matters.** -/
theorem buildPipeline_determined_iff (factories : String → Option (String → Option μ))
    (serverID : String) (stored : Rows)
    (hserver : ∀ name, stored.countP (isServer serverID name) ≤ 1) :
    (∀ o o' rows rows', Run serverID stored o rows → Run serverID stored o' rows' →
      buildPipeline factories (getForServer o rows) =
        buildPipeline factories (getForServer o' rows')) ↔
      Settled factories serverID stored := by
  refine ⟨fun hall => ⟨?_, ?_⟩, fun hsettled o o' rows rows' h h' =>
    hsettled.buildPipeline_eq hserver h h'⟩
  · -- two runs that differ in the last global row of one name
    intro name gc gc' hgc hgc'
    choose choice hchoice using exists_lastGlobal stored
    obtain ⟨names, hnodup, hnames⟩ := exists_names stored (nodup_singleton name)
    rw [singleton_append] at hnodup hnames
    have hpipeline := buildPipeline_update_perm factories hnodup hnames hserver hchoice hgc
    have hpipeline' := buildPipeline_update_perm factories hnodup hnames hserver hchoice hgc'
    have hperm := (hpipeline.symm.trans (.of_eq (hall _ _ _ _
      (run_queryOf hnodup hnames) (run_queryOf hnodup hnames)))).trans hpipeline'
    rw [perm_append_right_iff] at hperm
    revert hperm
    cases (entry serverID stored name gc).bind (made factories) <;>
      cases (entry serverID stored name gc').bind (made factories) <;> simp
  · -- two runs that visit two names first, in the two orders
    intro a b gc gc' mc mc' x y hab hgc hgc' hmc hmc' hpriority hx hy
    choose others hothers using exists_lastGlobal stored
    let choice := Function.update (Function.update others a gc) b gc'
    have hchoice : ∀ n, LastGlobal stored n (choice n) :=
      lastGlobal_update (lastGlobal_update hothers hgc) hgc'
    have hfirst : [a, b].Nodup := by simpa using hab
    obtain ⟨names, hnodup, hnames⟩ := exists_names stored hfirst
    rw [cons_append, singleton_append] at hnodup hnames
    have hswap : a :: b :: names ~ b :: a :: names := .swap _ _ _
    have hnodup' := hswap.nodup_iff.mp hnodup
    have hnames' : ∀ r ∈ stored, r.middleware ∈ b :: a :: names :=
      fun r hr => hswap.mem_iff.mp (hnames r hr)
    have heq := hall _ _ (queryOf choice serverID stored) (queryOf choice serverID stored)
      (run_queryOf hnodup hnames) (run_queryOf hnodup' hnames')
    have hea : entry serverID stored a (choice a) = some mc := by simpa [choice, hab] using hmc
    have heb : entry serverID stored b (choice b) = some mc' := by simpa [choice] using hmc'
    obtain ⟨l₁, l₂, hsort⟩ := sortByPriority_swap hpriority
      (names.filterMap fun n => entry serverID stored n (choice n))
    rw [getForServer_queryOf hnodup hnames hserver hchoice,
      getForServer_queryOf hnodup' hnames' hserver hchoice] at heq
    simp only [filterMap_cons, hea, heb] at heq
    rw [hsort mc mc' (.inl ⟨rfl, rfl⟩), hsort mc' mc (.inr ⟨rfl, rfl⟩)] at heq
    simp only [buildPipeline, filterMap_append, filterMap_cons, hx, hy, append_cancel_left_eq,
      cons.injEq] at heq
    exact heq.1

end

/-! ### On concrete rows -/

def twoRows (priority : ℤ) : Rows :=
  [⟨"1", some "s", "a", true, "", 0⟩, ⟨"2", none, "b", true, "", priority⟩]

def ordersOf (names : List String) : Orders := ⟨["a", "b"], ["a", "b"], names⟩

theorem run_of_sorted {rows : Rows} {names : List String}
    (hquery : ∀ r ∈ rows, r.serverID = none ∨ r.serverID = some "s")
    (hsorted : rows.Pairwise fun a b =>
      a.priority < b.priority ∨ a.priority = b.priority ∧ a.middleware ≤ b.middleware)
    (hnames : names ~ ["a", "b"]) (hrows : ∀ r ∈ rows, r.middleware ∈ ["a", "b"]) :
    Run "s" rows (ordersOf names) rows := by
  have hab : ["a", "b"].Nodup := by decide
  refine ⟨.of_eq (filter_eq_self.mpr fun r hr => decide_eq_true (hquery r hr)).symm, hsorted,
    ⟨hab, hab, hnames.nodup_iff.mpr hab⟩, fun r hr => ?_⟩
  exact ⟨hrows r hr, hrows r hr, hnames.mem_iff.mpr (hrows r hr)⟩

/-- A row of the server that is empty, a disabled global row that lends its configuration, and one
of another middleware. -/
def lendingRows : Rows :=
  [⟨"1", some "s", "a", true, "\x7b\x7d", 0⟩, ⟨"2", none, "a", false, "x", 1⟩,
    ⟨"3", none, "b", true, "y", 2⟩]

theorem getForServer_effective_lent :
    ⟨"1", some "s", "a", true, "x", 0⟩ ∈ getForServer (ordersOf ["b", "a"]) lendingRows := by
  have hone : OneEach "s" lendingRows := by
    intro name
    simp only [lendingRows, countP_cons, countP_nil, isGlobal, isServer]
    constructor <;> simp <;> grind
  exact ((getForServer_effective "s" lendingRows hone _ _
    (run_of_sorted (by decide) (by decide) (by decide) (by decide))).1 _).mpr (by decide +kernel)

def nameFactory (name : String) : Option (String → Option String) := some fun _ => some name

/-- Two global rows of one middleware, of different priorities. -/
def repeatedRows : Rows := twoRows 1 ++ [⟨"3", none, "b", true, "x", 2⟩]

theorem lastGlobal_repeatedRows {gc : Option MiddlewareConfig}
    (h : LastGlobal repeatedRows name gc) :
    gc = if name = "b" then some ⟨"3", none, "b", true, "x", 2⟩ else none := by
  by_cases hname : name = "b"
  · subst hname
    cases gc with
    | none => simp [LastGlobal, repeatedRows, twoRows, isGlobal] at h
    | some gc =>
      simp only [LastGlobal, repeatedRows, twoRows] at h
      simp [isGlobal] at h ⊢
      grind
  · cases gc with
    | none => simp [hname]
    | some gc =>
      simp [LastGlobal, repeatedRows, twoRows, isGlobal] at h
      grind

theorem settled_repeatedRows : Settled nameFactory "s" repeatedRows := by
  have hentry : ∀ name gc mc, LastGlobal repeatedRows name gc →
      entry "s" repeatedRows name gc = some mc → name = if mc.priority = 0 then "a" else "b" := by
    intro name gc mc hgc h
    rw [lastGlobal_repeatedRows hgc] at h
    by_cases ha : name = "a"
    · subst ha
      cases h
      rfl
    by_cases hb : name = "b"
    · subst hb
      cases h
      rfl
    · simp [entry, repeatedRows, twoRows, isServer, hb, Ne.symm ha] at h
  refine ⟨fun name gc gc' h h' => ?_, fun a b gc gc' mc mc' x y hab h h' hmc hmc' hp _ _ => ?_⟩
  · rw [lastGlobal_repeatedRows h, lastGlobal_repeatedRows h']
  · exact absurd ((hentry a gc mc h hmc).trans (hp ▸ (hentry b gc' mc' h' hmc').symm)) hab

theorem buildPipeline_determined_iff_repeated :
    buildPipeline nameFactory (getForServer (ordersOf ["b", "a"]) repeatedRows) =
      buildPipeline nameFactory (getForServer (ordersOf ["a", "b"]) repeatedRows) := by
  refine (buildPipeline_determined_iff nameFactory "s" repeatedRows ?_).mpr settled_repeatedRows
    _ _ _ _ (run_of_sorted (by decide) (by decide) (by decide) (by decide))
    (run_of_sorted (by decide) (by decide) (by decide) (by decide))
  intro name
  simp only [repeatedRows, twoRows, countP_cons, countP_append, countP_nil, isServer]
  simp
  grind

/-- **With equal priorities the order of a map decides.** -/
theorem buildPipeline_varies :
    Run "s" (twoRows 0) (ordersOf ["a", "b"]) (twoRows 0) ∧
      Run "s" (twoRows 0) (ordersOf ["b", "a"]) (twoRows 0) ∧
      buildPipeline nameFactory (getForServer (ordersOf ["a", "b"]) (twoRows 0)) = ["a", "b"] ∧
      buildPipeline nameFactory (getForServer (ordersOf ["b", "a"]) (twoRows 0)) = ["b", "a"] :=
  ⟨run_of_sorted (by decide) (by decide) (by decide) (by decide),
    run_of_sorted (by decide) (by decide) (by decide) (by decide), by decide +kernel,
    by decide +kernel⟩

end ArcRelay.Configs
