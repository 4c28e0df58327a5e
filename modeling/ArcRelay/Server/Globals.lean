import ArcRelay.Lib.Table
import ArcRelay.Server.Configs

/-!
# Writers of the global configurations

`UNIQUE(server_id, middleware)` does not keep rows without a server apart.  So `UpsertGlobal`
looks for the global row before it writes (`internal/store/middleware.go`), in two statements that
other statements come between, and `Upsert` without a server does not look at all.  A statement
that fails has no effect and ends its call, so a run has only those that do not.

* `exec_global`, `exec_global_twice`: one global row in careful runs, and two calls that make two.
-/

namespace ArcRelay.Configs

open List Table

def key (r : MiddlewareConfig) : Option String × String := (r.serverID, r.middleware)

def setting (mc : MiddlewareConfig) : Bool × String × ℤ := (mc.enabled, mc.config, mc.priority)

/-- `SET enabled = ?, config = ?, priority = ?` -/
def assign (mc r : MiddlewareConfig) : MiddlewareConfig :=
  { r with enabled := mc.enabled, config := mc.config, priority := mc.priority }

/-- `LIMIT 1`: the first row that is come upon. -/
def getGlobal (name : String) (rows : Rows) : Option MiddlewareConfig := rows.find? (isGlobal name)

/-- `INSERT`, which the primary key can refuse. -/
def insert (r : MiddlewareConfig) (rows : Rows) : Option Rows :=
  if (find MiddlewareConfig.id r.id rows).isSome then none else some (rows ++ [r])

/-- `Upsert` with a new id: `ON CONFLICT(server_id, middleware) DO UPDATE`. -/
def upsert (id : String) (mc : MiddlewareConfig) (rows : Rows) : Option Rows :=
  if mc.serverID.isSome ∧ (find key (key mc) rows).isSome then
    some (Table.modify key (key mc) (assign mc) rows)
  else insert { mc with id := if mc.id = "" then id else mc.id } rows

/-- `UpsertGlobal` behind its `GetGlobal`, with the id of the row that was found. -/
def writeGlobal (id : String) (mc : MiddlewareConfig) (rows : Rows) : Option String → Option Rows
  | some existing => some (Table.modify MiddlewareConfig.id existing (assign mc) rows)
  | none => insert { mc with id := id, serverID := none } rows

structure State where
  rows : Rows := []
  /-- The calls of `UpsertGlobal` that have not written yet, with what they have found. -/
  pending : List (MiddlewareConfig × Option String) := []
  /-- What the last completed write of a global configuration has set. -/
  last : String → Option (Bool × String × ℤ) := fun _ => none

inductive Event where
  | upsert (mc : MiddlewareConfig) (id : String)
  | readGlobal (mc : MiddlewareConfig)
  | writeGlobal (i : ℕ) (id : String)

namespace State

variable (s : State)

def complete (mc : MiddlewareConfig) : Option Rows → State
  | none => s
  | some rows =>
    { s with
      rows := rows
      last := fun name => if isGlobal name mc then some (setting mc) else s.last name }

def apply : Event → State
  | .upsert mc id => s.complete mc (upsert id mc s.rows)
  | .readGlobal mc =>
    { s with
      pending := s.pending ++ [(mc, (getGlobal mc.middleware s.rows).map MiddlewareConfig.id)] }
  | .writeGlobal i id =>
    match s.pending[i]? with
    | none => s
    | some (mc, existing) =>
      { s with pending := s.pending.eraseIdx i }.complete { mc with serverID := none }
        (writeGlobal id mc s.rows existing)

def exec (events : List Event) : State := events.foldl apply s

/-- No second global row can come of the statement: what `UpsertGlobal` has found is still so, and
`Upsert` without a server is the first to write. -/
def Careful : Event → Prop
  | .upsert mc _ => mc.serverID = none → getGlobal mc.middleware s.rows = none
  | .readGlobal _ => True
  | .writeGlobal i _ => ∀ p ∈ s.pending[i]?,
    p.2 = (getGlobal p.1.middleware s.rows).map MiddlewareConfig.id

def CarefulRun : State → List Event → Prop
  | _, [] => True
  | s, ev :: events => s.Careful ev ∧ CarefulRun (s.apply ev) events

end State

variable {name id : String} {rows rows' : Rows} {mc r : MiddlewareConfig} {s : State}

/-! ### Statements -/

structure Keyed (rows : Rows) : Prop where
  ids : (rows.map MiddlewareConfig.id).Nodup
  keys : (rows.map key).Nodup

/-- The rows with the configuration `mc` in its place. -/
def Written (mc : MiddlewareConfig) (rows rows' : Rows) : Prop :=
  Keyed rows' ∧ ∀ name, (getGlobal name rows').map setting =
    if isGlobal name mc then some (setting mc) else (getGlobal name rows).map setting

theorem isGlobal_eq (name : String) (r : MiddlewareConfig) :
    isGlobal name r = decide (key r = (none, name)) := by
  simp [isGlobal, key]

theorem getGlobal_eq (name : String) (rows : Rows) :
    getGlobal name rows = find key (none, name) rows := by
  simp only [getGlobal, find, ← isGlobal_eq]

theorem Keyed.insert (h : Keyed rows) (hrows : insert r rows = some rows')
    (hnew : find key (key r) rows = none) : Written r rows rows' := by
  obtain ⟨hid, hrows⟩ := Option.ite_none_left_eq_some.mp hrows
  cases hrows
  refine ⟨⟨nodup_append_row h.ids (by simpa using hid), nodup_append_row h.keys hnew⟩,
    fun name => ?_⟩
  rw [getGlobal_eq, getGlobal_eq, find_append, isGlobal_eq]
  by_cases hname : key r = (none, name)
  · simp [← hname, hnew]
  · simp [hname]

theorem Keyed.modify (h : Keyed rows) (hold : find key (key mc) rows = some r) :
    Written mc rows (Table.modify key (key mc) (assign mc) rows) := by
  have hkey : ∀ x, key x = key mc → key (assign mc x) = key mc := fun _ hx => hx
  refine ⟨⟨?_, nodup_modify hkey h.keys⟩, fun name => ?_⟩
  · rw [map_modify_eq (f := assign mc) fun _ _ => rfl]
    exact h.ids
  rw [getGlobal_eq, getGlobal_eq, find_modify hkey, isGlobal_eq]
  by_cases hname : key mc = (none, name)
  · simp [← hname, hold, setting, assign]
  · simp [hname, Ne.symm hname]

theorem Keyed.modify_id (h : Keyed rows) (hr : r ∈ rows) (f : MiddlewareConfig → MiddlewareConfig) :
    Table.modify MiddlewareConfig.id r.id f rows = Table.modify key (key r) f rows := by
  refine map_congr_left fun x hx => ?_
  have hiff : x.id = r.id ↔ key x = key r :=
    ⟨fun heq => congrArg key (inj_on_of_nodup_map h.ids hx hr heq),
      fun heq => congrArg _ (inj_on_of_nodup_map h.keys hx hr heq)⟩
  simp only [hiff]

theorem Keyed.upsert (h : Keyed rows)
    (hfirst : mc.serverID = none → getGlobal mc.middleware rows = none)
    (hrows : upsert id mc rows = some rows') : Written mc rows rows' := by
  rw [Configs.upsert] at hrows
  split at hrows
  · next hold =>
    cases hrows
    obtain ⟨r, hr⟩ := Option.isSome_iff_exists.mp hold.2
    exact h.modify hr
  next hnew =>
  have hnone : find key (key mc) rows = none := by
    cases hserver : mc.serverID with
    | none =>
      rw [key, hserver, ← getGlobal_eq]
      exact hfirst hserver
    | some server => simpa [hserver] using hnew
  have hwritten := h.insert hrows hnone
  exact hwritten

theorem Keyed.writeGlobal (h : Keyed rows)
    (hrows : writeGlobal id mc rows ((getGlobal mc.middleware rows).map MiddlewareConfig.id) =
      some rows') : Written { mc with serverID := none } rows rows' := by
  cases hfound : getGlobal mc.middleware rows with
  | none =>
    rw [hfound] at hrows
    rw [getGlobal_eq] at hfound
    have hwritten := h.insert hrows hfound
    exact hwritten
  | some r =>
    rw [hfound] at hrows
    cases hrows
    rw [getGlobal_eq] at hfound
    rw [h.modify_id (mem_of_find hfound), key_of_find hfound]
    exact h.modify hfound

/-! ### Runs -/

structure Inv (s : State) : Prop where
  keyed : Keyed s.rows
  last : ∀ name, (getGlobal name s.rows).map setting = s.last name

theorem Inv.complete {write : Option Rows} (h : Inv s)
    (hwrite : ∀ rows, write = some rows → Written mc s.rows rows) : Inv (s.complete mc write) := by
  cases write with
  | none => exact h
  | some rows => ?_
  obtain ⟨hkeyed, hread⟩ := hwrite rows rfl
  refine ⟨hkeyed, fun name => (hread name).trans ?_⟩
  rw [h.last name]
  rfl

theorem Inv.apply {ev : Event} (h : Inv s) (hcareful : s.Careful ev) : Inv (s.apply ev) := by
  cases ev with
  | upsert mc id => exact h.complete fun _ => h.keyed.upsert hcareful
  | readGlobal mc => exact ⟨h.keyed, h.last⟩
  | writeGlobal i id => ?_
  rw [State.apply]
  split
  · exact h
  next mc existing hp =>
  refine Inv.complete (s := { s with pending := _ }) ⟨h.keyed, h.last⟩ fun rows hrows => ?_
  have hfound : existing = (getGlobal mc.middleware s.rows).map _ := hcareful _ hp
  rw [hfound] at hrows
  exact h.keyed.writeGlobal hrows

theorem Keyed.oneEach (h : Keyed rows) (serverID : String) : OneEach serverID rows := by
  have hcount : ∀ k (P : MiddlewareConfig → Bool), (∀ r, P r = true ↔ key r = k) →
      rows.countP P ≤ 1 := by
    intro k P hP
    have hle := nodup_iff_count_le_one.mp h.keys k
    rw [count, countP_map] at hle
    rwa [countP_congr fun r _ => (hP r).trans beq_iff_eq.symm]
  exact fun name => ⟨hcount (none, name) _ (by simp [isGlobal, key]),
    hcount (some serverID, name) _ (by simp [isServer, key])⟩

theorem Inv.exec {events : List Event} (h : Inv s) (hcareful : s.CarefulRun events) :
    Inv (s.exec events) := by
  induction events generalizing s with
  | nil => exact h
  | cons ev events ih => exact ih (h.apply hcareful.1) hcareful.2

/-- **A careful run keeps one global row, and readers see the last write.** -/
theorem exec_global (events : List Event) (hcareful : State.CarefulRun {} events) :
    let s := State.exec {} events
    (∀ name, s.rows.countP (isGlobal name) ≤ 1 ∧
      (getGlobal name s.rows).map setting = s.last name) ∧
      ∀ serverID o rows, Run serverID s.rows o rows → ∀ mc,
        mc ∈ getForServer o rows ↔ effective serverID s.rows mc.middleware = some mc := by
  have h : Inv (State.exec {} events) :=
    Inv.exec ⟨⟨nodup_nil, nodup_nil⟩, fun _ => rfl⟩ hcareful
  exact ⟨fun name => ⟨(h.keyed.oneEach "" name).1, h.last name⟩,
    fun serverID _ _ hrun _ => hrun.mem_getForServer (h.keyed.oneEach serverID)⟩

def globalConfig (config : String) : MiddlewareConfig := ⟨"", none, "sizer", true, config, 0⟩

theorem exec_global_rewritten :
    let events := [.upsert (globalConfig "a") "1", .readGlobal (globalConfig "b"),
      .writeGlobal 0 "2"]
    (getGlobal "sizer" (State.exec {} events).rows).map setting = some (true, "b", 0) := by
  intro events
  have hcareful : State.CarefulRun {} events :=
    ⟨fun _ => rfl, trivial, fun p hp => by cases hp; rfl, trivial⟩
  exact ((exec_global events hcareful).1 "sizer").2

/-- **Two calls that have both found no row.** -/
theorem exec_global_twice :
    let s := State.exec {} [.readGlobal (globalConfig "a"), .readGlobal (globalConfig "b"),
      .writeGlobal 0 "1", .writeGlobal 0 "2"]
    s.rows.countP (isGlobal "sizer") = 2 ∧
      (getGlobal "sizer" s.rows).map setting = some (true, "a", 0) ∧
      s.last "sizer" = some (true, "b", 0) := by
  decide +kernel

end ArcRelay.Configs
